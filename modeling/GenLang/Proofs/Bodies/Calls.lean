import Mathlib.Data.List.Forall2
import Mathlib.Data.List.Pairwise
import Mathlib.Data.List.Perm.Basic
import GenLang.Proofs.Syntax.Places
import GenLang.Compilation

/-!
# Calls in source order

The calls of a text whose callee has a name, each in front of those inside it. That a call stands
before another in the list says that it stands before it in the text: what is known of the places of
trees is enough for that.
-/

namespace GenLang

open Text

/-! ## Expressions -/

/-- A call of a bare name, or of a member of what is in front of a dot. -/
structure Call where
  span : Span
  /-- What is in front of the dot. -/
  receiver : Option Expr
  method : String
  args : List Expr

/-- A call of an expression, if that is a name or a member. -/
def Call.of? (span : Span) (args : List Expr) : Expr → Option Call
  | .name _ n => some ⟨span, none, n, args⟩
  | .member _ target name => some ⟨span, some target, name.name, args⟩
  | _ => none

mutual

/-- The calls in an expression, each in front of those inside it. -/
def Expr.calls : Expr → List Call
  | .lit _ _ | .name _ _ | .self _ => []
  | .list _ es | .new _ _ es => Expr.callsAll es
  | .member _ e _ | .unary _ _ e | .await _ e => e.calls
  | .call s e es => (Call.of? s es e).toList ++ (e.calls ++ Expr.callsAll es)
  | .index _ a b | .binary _ _ a b => a.calls ++ b.calls

def Expr.callsAll : List Expr → List Call
  | [] => []
  | e :: es => e.calls ++ Expr.callsAll es

end

namespace Call

/-- The calls in what is in front of the dot and in the arguments. -/
def inside (c : Call) : List Call :=
  c.receiver.toList.flatMap Expr.calls ++ Expr.callsAll c.args

/-- The order of the text: a call starts before another, or at the same byte and around it. -/
def Precedes (a b : Call) : Prop :=
  a.span.start < b.span.start ∨ a.span.start = b.span.start ∧ b ∈ a.inside

end Call

/-! ## Statements and members -/

/-- An expression of a statement: what is assigned to, or something to be evaluated. -/
inductive Part where
  | value (e : Expr)
  | target (e : Expr)

namespace Part

def expr : Part → Expr
  | value e | target e => e

/-- Whether it is a target to which nothing can be assigned. -/
def invalid : Part → Bool
  | value _ => false
  | target (.name _ _) | target (.member _ _ _) | target (.index _ _ _) => false
  | target _ => true

end Part

mutual

/-- The expressions in a statement, in the order of the text. -/
def Stmt.parts : Stmt → List Part
  | .declare _ _ e | .ret _ e => e.toList.map .value
  | .assign _ t e => [.target t, .value e]
  | .expr _ e | .throw _ e => [.value e]
  | .cond c => c.parts
  | .whileLoop _ e b | .forLoop _ _ e b => .value e :: b.parts
  | .tryCatch _ b _ h => b.parts ++ h.parts
  | .breakLoop _ | .continueLoop _ => []
  | .nested b => b.parts

def Block.parts : Block → List Part
  | .mk _ ss => Stmt.partsAll ss

def Conditional.parts : Conditional → List Part
  | .mk _ e b a => .value e :: b.parts ++ a.parts

def Alternative.parts : Alternative → List Part
  | .none => []
  | .block b => b.parts
  | .chain c => c.parts

def Stmt.partsAll : List Stmt → List Part
  | [] => []
  | s :: ss => s.parts ++ Stmt.partsAll ss

end

def Member.parts : Member → List Part
  | .field f => f.init.toList.map .value
  | .method m => m.body.toList.flatMap Block.parts

def Member.isField : Member → Bool
  | .field _ => true
  | .method _ => false

/-- A call and the member that it stands in. -/
structure CallSite where
  file : String
  type : String
  member : String
  /-- The call stands in a target to which nothing can be assigned. -/
  inInvalidTarget : Bool
  call : Call

namespace Declaration

/-- The calls in a member of a declaration, in the order of the text. -/
def memberSites (d : Declaration) (m : Member) : List CallSite :=
  m.parts.flatMap fun p => p.expr.calls.map fun call =>
    ⟨d.file, d.decl.name.name, m.name.name, p.invalid, call⟩

def sites (d : Declaration) : List CallSite :=
  d.decl.members.flatMap d.memberSites

end Declaration

/-- The declarations of a unit, in the order of the text. -/
def SourceUnit.declarations (u : SourceUnit) : List Declaration :=
  (Parsed.ofSource u.text).types.map fun t => ⟨u.name, t⟩

/-- The calls in a unit whose callee is a name or a member, in the order of the text. -/
def SourceUnit.sites (u : SourceUnit) : List CallSite :=
  u.declarations.flatMap Declaration.sites

/-! ## Calls in places -/

namespace Outline

variable {source : String} {ts : List Lexeme}

/-- Calls that start within a place, one before the other. -/
structure Encloses (s : Span) (cs : List Call) : Prop where
  starts : ∀ c ∈ cs, s.start ≤ c.span.start ∧ c.span.start < s.stop
  ordered : cs.Pairwise Call.Precedes

theorem Encloses.nil (s : Span) : Encloses s [] :=
  ⟨by simp, .nil⟩

/-- Calls of one place come before those of a place behind it. -/
theorem Encloses.before {s s' : Span} {cs cs' : List Call} (h : Encloses s cs)
    (h' : Encloses s' cs') (hspan : s.stop ≤ s'.start) :
    ∀ c ∈ cs, ∀ c' ∈ cs', c.span.start < c'.span.start := by
  intro c hc c' hc'
  have := h.starts c hc
  have := h'.starts c' hc'
  omega

theorem pairwise_flatten {os : List Outline} {css : List (List Call)} (hordered : Ordered os)
    (h : List.Forall₂ (fun o cs => Encloses o.span cs) os css) :
    css.flatten.Pairwise Call.Precedes ∧
      ∀ c ∈ css.flatten, ∃ o ∈ os, o.span.start ≤ c.span.start ∧ c.span.start < o.span.stop := by
  induction h with
  | nil => exact ⟨.nil, by simp⟩
  | @cons o cs os css ho _ ih =>
    obtain ⟨hbehind, hordered⟩ := List.pairwise_cons.1 hordered
    obtain ⟨hpairwise, hwithin⟩ := ih hordered
    rw [List.flatten_cons]
    refine ⟨List.pairwise_append.2 ⟨ho.ordered, hpairwise, fun c hc c' hc' => .inl ?_⟩,
      fun c hc => ?_⟩
    · obtain ⟨o', ho', hstart, -⟩ := hwithin c' hc'
      have := hbehind o' ho'
      have := ho.starts c hc
      omega
    · rcases List.mem_append.1 hc with hc | hc
      · exact ⟨o, List.mem_cons_self, ho.starts c hc⟩
      · obtain ⟨o', ho', h'⟩ := hwithin c hc
        exact ⟨o', List.mem_cons_of_mem _ ho', h'⟩

/-- Calls belong to a tree with the outline. -/
def Holds (o : Outline) (cs : List Call) : Prop :=
  ∀ source ts, o.Nested source ts → Encloses o.span cs

theorem Holds.nil (o : Outline) : o.Holds [] :=
  fun _ _ _ => .nil _

/-- The calls of a node are those of its parts. -/
theorem Holds.node {s : Span} {name : Option String} {parts : List Outline}
    {css : List (List Call)} {cs : List Call} (h : List.Forall₂ Holds parts css)
    (hcs : css.flatten = cs) : (Outline.node s name parts).Holds cs := by
  subst hcs
  intro source ts hnested
  cases hnested with
  | node _ _ _ _ within ordered nested =>
    have hall : List.Forall₂ (fun o cs => Encloses o.span cs) parts css :=
      (List.forall₂_and_left _ _).2 ⟨nested, h⟩ |>.imp fun _ _ h => h.2 _ _ h.1
    obtain ⟨hpairwise, hwithin⟩ := pairwise_flatten ordered hall
    refine ⟨fun c hc => ?_, hpairwise⟩
    obtain ⟨o, ho, hstart, hstop⟩ := hwithin c hc
    have := within o ho
    exact ⟨Nat.le_trans this.1 hstart, Nat.lt_of_lt_of_le hstop this.2⟩

/-- A call that spans a whole node comes before the calls in it. -/
theorem Holds.call {s : Span} {name : Option String} {parts : List Outline} {cs : List Call}
    (h : (Outline.node s name parts).Holds cs) {call : Call} (hspan : call.span = s)
    (hinside : cs ⊆ call.inside) : (Outline.node s name parts).Holds (call :: cs) := by
  intro source ts hnested
  have henclosed := h _ _ hnested
  have hnonempty : s.start < s.stop := hnested.nonempty
  refine ⟨List.forall_mem_cons.2 ⟨?_, henclosed.starts⟩,
    List.pairwise_cons.2 ⟨fun c hc => ?_, henclosed.ordered⟩⟩
  · rw [hspan]
    exact ⟨Nat.le_refl _, hnonempty⟩
  · rcases Nat.lt_or_eq_of_le (henclosed.starts c hc).1 with hlt | heq
    · exact .inl (hspan ▸ hlt)
    · exact .inr ⟨hspan ▸ heq, hinside hc⟩

end Outline

open Outline

theorem Ident.holds (i : Ident) : i.outline.Holds [] :=
  .nil _

theorem Expr.callsAll_eq_flatten (es : List Expr) : callsAll es = (es.map calls).flatten := by
  induction es with
  | nil => rfl
  | cons e es ih => rw [callsAll, ih, List.map_cons, List.flatten_cons]

mutual

theorem Expr.holds : ∀ e : Expr, e.outline.Holds e.calls
  | .lit _ _ | .name _ _ | .self _ => .nil _
  | .list _ es => by
    rw [outline, calls, callsAll_eq_flatten]
    exact .node (Expr.holdsAll es) rfl
  | .new _ i es => by
    rw [outline, calls, callsAll_eq_flatten]
    exact .node (.cons i.holds (Expr.holdsAll es)) rfl
  | .member _ e i => by
    rw [outline, calls]
    exact .node (.cons e.holds (.cons i.holds .nil)) (List.append_nil _)
  | .call s e es => by
    rw [outline, calls, callsAll_eq_flatten]
    have hparts : (Outline.node s none (e.outline :: outlines es)).Holds
        (e.calls ++ (es.map calls).flatten) :=
      .node (.cons e.holds (Expr.holdsAll es)) rfl
    -- only a name or a member is called by name: any other call holds what its parts hold
    cases e with
    | name _ _ => exact hparts.call rfl (by simp [Call.inside, calls, callsAll_eq_flatten])
    | member _ target _ => exact hparts.call rfl (by simp [Call.inside, calls, callsAll_eq_flatten])
    | _ => exact hparts
  | .index _ a b => by
    rw [outline, calls]
    exact .node (.cons a.holds (.cons b.holds .nil)) (by simp)
  | .unary _ _ e => by
    rw [outline, calls]
    exact .node (.cons e.holds .nil) (List.append_nil _)
  | .binary _ _ a b => by
    rw [outline, calls]
    exact .node (.cons a.holds (.cons b.holds .nil)) (by simp)
  | .await _ e => by
    rw [outline, calls]
    exact .node (.cons e.holds .nil) (List.append_nil _)

theorem Expr.holdsAll : ∀ es : List Expr, List.Forall₂ Holds (outlines es) (es.map calls)
  | [] => .nil
  | e :: es => .cons e.holds (Expr.holdsAll es)

end

theorem Expr.holds_toList (e : Option Expr) :
    List.Forall₂ Holds (e.toList.map outline) (e.toList.map calls) := by
  cases e with
  | none => exact .nil
  | some e => exact .cons e.holds .nil

/-! ## Statements in places -/

/-- The calls in some expressions of statements. -/
def Part.callsAll (ps : List Part) : List Call :=
  ps.flatMap fun p => p.expr.calls

theorem Part.callsAll_cons (e : Expr) (ps : List Part) :
    callsAll (.value e :: ps) = e.calls ++ callsAll ps :=
  rfl

theorem Part.callsAll_append (ps qs : List Part) :
    callsAll (ps ++ qs) = callsAll ps ++ callsAll qs :=
  List.flatMap_append

theorem Part.callsAll_value (e : Option Expr) :
    callsAll (e.toList.map .value) = (e.toList.map Expr.calls).flatten := by
  cases e <;> simp [callsAll, expr]

mutual

theorem Stmt.holds : ∀ s : Stmt, s.outline.Holds (Part.callsAll s.parts)
  | .declare _ i e => by
    rw [Stmt.outline, Stmt.parts, Part.callsAll_value]
    exact .node (.cons i.holds (Expr.holds_toList e)) rfl
  | .assign _ t e => by
    rw [Stmt.outline, Stmt.parts]
    exact .node (.cons t.holds (.cons e.holds .nil)) rfl
  | .expr _ e => by
    rw [Stmt.outline, Stmt.parts]
    exact .node (.cons e.holds .nil) rfl
  | .cond c => by
    rw [Stmt.outline, Stmt.parts]
    exact c.holds
  | .whileLoop _ e b => by
    rw [Stmt.outline, Stmt.parts]
    exact .node (.cons e.holds (.cons b.holds .nil)) (by simp [Part.callsAll_cons])
  | .forLoop _ i e b => by
    rw [Stmt.outline, Stmt.parts]
    exact .node (.cons i.holds (.cons e.holds (.cons b.holds .nil)))
      (by simp [Part.callsAll_cons])
  | .ret _ e => by
    rw [Stmt.outline, Stmt.parts, Part.callsAll_value]
    exact .node (Expr.holds_toList e) rfl
  | .throw _ e => by
    rw [Stmt.outline, Stmt.parts]
    exact .node (.cons e.holds .nil) rfl
  -- the handler stands behind the body, with its name between them if it has one
  | .tryCatch _ b none h => by
    rw [Stmt.outline, Stmt.parts, Part.callsAll_append]
    exact .node (.cons b.holds (.cons h.holds .nil)) (by simp)
  | .tryCatch _ b (some i) h => by
    rw [Stmt.outline, Stmt.parts, Part.callsAll_append]
    exact .node (.cons b.holds (.cons i.holds (.cons h.holds .nil))) (by simp)
  | .breakLoop _ | .continueLoop _ => .nil _
  | .nested b => by
    rw [Stmt.outline, Stmt.parts]
    exact .node (.cons b.holds .nil) (List.append_nil _)

theorem Block.holds : ∀ b : Block, b.outline.Holds (Part.callsAll b.parts)
  | .mk _ ss => by
    rw [Block.outline, Block.parts]
    obtain ⟨css, hall, hcss⟩ := Stmt.holdsAll ss
    exact .node hall hcss

theorem Conditional.holds : ∀ c : Conditional, c.outline.Holds (Part.callsAll c.parts)
  | .mk _ e b a => by
    rw [Conditional.outline, Conditional.parts]
    obtain ⟨css, hall, hcss⟩ := a.holds
    refine .node (.cons e.holds (.cons b.holds hall)) ?_
    simp [hcss, Part.callsAll_cons, Part.callsAll_append]

theorem Alternative.holds : ∀ a : Alternative, ∃ css, List.Forall₂ Holds a.outlines css ∧
    css.flatten = Part.callsAll a.parts
  | .none => ⟨[], .nil, rfl⟩
  | .block b => ⟨[_], .cons b.holds .nil, List.append_nil _⟩
  | .chain c => ⟨[_], .cons c.holds .nil, List.append_nil _⟩

theorem Stmt.holdsAll : ∀ ss : List Stmt, ∃ css, List.Forall₂ Holds (Stmt.outlines ss) css ∧
    css.flatten = Part.callsAll (Stmt.partsAll ss)
  | [] => ⟨[], .nil, rfl⟩
  | s :: ss => by
    obtain ⟨css, hall, hcss⟩ := Stmt.holdsAll ss
    exact ⟨_ :: css, .cons s.holds hall, by
      rw [List.flatten_cons, hcss, Stmt.partsAll, Part.callsAll_append]⟩

end

/-! ## Members in places -/

theorem Outline.holdsNone (os : List Outline) : List.Forall₂ Holds os (os.map fun _ => []) :=
  List.forall₂_map_right_iff.2 (List.forall₂_same.2 fun o _ => .nil o)

theorem Member.holds (m : Member) : m.outline.Holds (Part.callsAll m.parts) := by
  cases m with
  | field f =>
    rw [outline, FieldDecl.outline, parts, Part.callsAll_value]
    exact .node (.cons f.name.holds (Expr.holds_toList f.init)) rfl
  | method m =>
    have hnames := Outline.holdsNone
      (m.name.outline :: m.params.flatMap Param.outlines ++ m.returns.toList.map Ident.outline)
    rw [outline, MethodDecl.outline, parts]
    cases hbody : m.body with
    | none => exact .node (List.rel_append hnames .nil) (by simp [Part.callsAll])
    | some b => exact .node (List.rel_append hnames (.cons b.holds .nil)) (by simp)

/-- The members of a nested declaration are nested, one behind the other. -/
theorem TypeDecl.members_nested {source : String} {ts : List Lexeme} {d : TypeDecl}
    (h : d.outline.Nested source ts) :
    (∀ m ∈ d.members, m.outline.Nested source ts) ∧ Ordered (d.members.map Member.outline) := by
  unfold TypeDecl.outline at h
  cases h with
  | node _ _ _ _ _ ordered nested =>
    refine ⟨fun m hm => nested _ (List.mem_append_right _ (List.mem_map_of_mem hm)), ?_⟩
    exact ordered.sublist (List.sublist_append_right _ _)

/-! ## The order of sites -/

namespace CallSite

/-- The order of the text, for calls of one unit. -/
def Precedes (a b : CallSite) : Prop :=
  a.call.Precedes b.call

/-- All of some calls start before all of others. -/
def AllBefore (as bs : List CallSite) : Prop :=
  ∀ a ∈ as, ∀ b ∈ bs, a.call.span.start < b.call.span.start

theorem Precedes.start_le {a b : CallSite} (h : a.Precedes b) :
    a.call.span.start ≤ b.call.span.start :=
  h.elim Nat.le_of_lt fun h => Nat.le_of_eq h.1

theorem AllBefore.precedes {as bs : List CallSite} (h : AllBefore as bs) :
    ∀ a ∈ as, ∀ b ∈ bs, a.Precedes b :=
  fun a ha b hb => .inl (h a ha b hb)

theorem AllBefore.sublist {as as' bs bs' : List CallSite} (h : AllBefore as bs)
    (has : as'.Sublist as) (hbs : bs'.Sublist bs) : AllBefore as' bs' :=
  fun a ha b hb => h a (has.subset ha) b (hbs.subset hb)

theorem allBefore_of_encloses {as bs : List CallSite} {s s' : Span}
    (has : Encloses s (as.map (·.call))) (hbs : Encloses s' (bs.map (·.call)))
    (hspan : s.stop ≤ s'.start) : AllBefore as bs :=
  fun _ ha _ hb =>
    has.before hbs hspan _ (List.mem_map_of_mem ha) _ (List.mem_map_of_mem hb)

end CallSite

open CallSite

/-- Where fields are gone through before all else, calls are in order if none in another member
stands before one in a field. -/
theorem pairwise_fields_first {ms : List Member} {f : Member → List CallSite}
    (hapart : ms.Pairwise fun m m' => AllBefore (f m) (f m'))
    (hordered : ∀ m ∈ ms, (f m).Pairwise Precedes) :
    ((ms.filter (·.isField) ++ ms.filter (!·.isField)).flatMap f).Pairwise Precedes ↔
      ms.Pairwise fun m m' => m.isField = false → m'.isField = true → f m = [] ∨ f m' = [] := by
  have hkept : ms.Pairwise fun m m' => ∀ a ∈ f m, ∀ b ∈ f m', a.Precedes b :=
    hapart.imp AllBefore.precedes
  rw [List.pairwise_flatMap, List.pairwise_append]
  constructor
  · rintro ⟨-, -, -, hcross⟩
    refine hapart.imp_of_mem fun {m m'} hm hm' hbefore hother hfield => ?_
    by_contra hboth
    obtain ⟨hne, hne'⟩ := not_or.1 hboth
    obtain ⟨a, ha⟩ := List.exists_mem_of_ne_nil _ hne
    obtain ⟨b, hb⟩ := List.exists_mem_of_ne_nil _ hne'
    have hprecedes := hcross m' (List.mem_filter.2 ⟨hm', hfield⟩) m
      (List.mem_filter.2 ⟨hm, by simp [hother]⟩) b hb a ha
    exact Nat.not_lt.2 hprecedes.start_le (hbefore a ha b hb)
  · intro hfirst
    -- of a field and another member, whichever comes first
    have hall := List.Pairwise.forall_of_forall_of_flip
      (R := fun m m' => m.isField = true → m'.isField = false →
        ∀ a ∈ f m, ∀ b ∈ f m', a.Precedes b)
      (fun m _ hfield hother => by simp [hfield] at hother)
      (hkept.imp fun h _ _ => h)
      (hfirst.imp fun h hfield hother => by
        rcases h hother hfield with hnil | hnil <;> simp [hnil])
    refine ⟨fun m hm => hordered m ?_, hkept.filter _, hkept.filter _, fun m hm m' hm' => ?_⟩
    · rcases List.mem_append.1 hm with hm | hm
      · exact (List.mem_filter.1 hm).1
      · exact (List.mem_filter.1 hm).1
    · obtain ⟨hm, hfield⟩ := List.mem_filter.1 hm
      obtain ⟨hm', hother⟩ := List.mem_filter.1 hm'
      exact hall hm hm' hfield (by simpa using hother)

namespace Declaration

theorem map_call_memberSites (d : Declaration) (m : Member) :
    (d.memberSites m).map (·.call) = Part.callsAll m.parts := by
  simp [memberSites, Part.callsAll, List.map_flatMap, Function.comp_def]

/-- The calls in a member that are not in a target to which nothing can be assigned. -/
def reached (d : Declaration) (m : Member) : List CallSite :=
  (d.memberSites m).filter (!·.inInvalidTarget)

/-- The calls of a declaration that are not in such a target, those in fields before all others. -/
def visited (d : Declaration) : List CallSite :=
  (d.decl.members.filter (·.isField) ++ d.decl.members.filter (!·.isField)).flatMap d.reached

/-- No field that holds a call stands behind another member that holds one. -/
def FieldsFirst (d : Declaration) : Prop :=
  d.decl.members.Pairwise fun m m' =>
    m.isField = false → m'.isField = true → d.reached m = [] ∨ d.reached m' = []

theorem visited_perm (d : Declaration) : d.visited.Perm (d.sites.filter (!·.inInvalidTarget)) := by
  rw [sites, List.filter_flatMap]
  exact (List.filter_append_perm _ _).flatMap_right _

variable {d : Declaration} {source : String} {ts : List Lexeme}

theorem encloses_memberSites (h : d.decl.outline.Nested source ts) {m : Member}
    (hm : m ∈ d.decl.members) : Encloses m.outline.span ((d.memberSites m).map (·.call)) := by
  rw [map_call_memberSites]
  exact m.holds source ts ((TypeDecl.members_nested h).1 m hm)

theorem pairwise_memberSites (h : d.decl.outline.Nested source ts) {m : Member}
    (hm : m ∈ d.decl.members) : (d.memberSites m).Pairwise Precedes :=
  (encloses_memberSites h hm).ordered.of_map (·.call) fun _ _ h => h

theorem memberSites_apart (h : d.decl.outline.Nested source ts) :
    d.decl.members.Pairwise fun m m' => AllBefore (d.memberSites m) (d.memberSites m') :=
  (List.pairwise_map.1 (TypeDecl.members_nested h).2).imp_of_mem fun hm hm' hspan =>
    allBefore_of_encloses (encloses_memberSites h hm) (encloses_memberSites h hm') hspan

theorem pairwise_sites (h : d.decl.outline.Nested source ts) : d.sites.Pairwise Precedes :=
  List.pairwise_flatMap.2
    ⟨fun _ hm => pairwise_memberSites h hm, (memberSites_apart h).imp AllBefore.precedes⟩

theorem pairwise_visited_iff (h : d.decl.outline.Nested source ts) :
    d.visited.Pairwise Precedes ↔ d.FieldsFirst := by
  refine pairwise_fields_first ?_ fun m hm => (pairwise_memberSites h hm).filter _
  exact (memberSites_apart h).imp fun h => h.sublist List.filter_sublist List.filter_sublist

/-- All calls of a declaration start within it. -/
theorem starts_of_mem_sites (h : d.decl.outline.Nested source ts) {a : CallSite}
    (ha : a ∈ d.sites) :
    d.decl.span.start ≤ a.call.span.start ∧ a.call.span.start < d.decl.span.stop := by
  obtain ⟨m, hm, ha⟩ := List.mem_flatMap.1 ha
  have hstarts := (encloses_memberSites h hm).starts _ (List.mem_map_of_mem ha)
  unfold TypeDecl.outline at h
  cases h with
  | node _ _ _ _ within _ _ =>
    have hwithin := within _ (List.mem_append_right _ (List.mem_map_of_mem hm))
    exact ⟨Nat.le_trans hwithin.1 hstarts.1, Nat.lt_of_lt_of_le hstarts.2 hwithin.2⟩

end Declaration

namespace SourceUnit

/-- The calls of a unit that are not in targets to which nothing can be assigned, those in fields
of a declaration before all others of it. -/
def visited (u : SourceUnit) : List CallSite :=
  u.declarations.flatMap Declaration.visited

theorem declarations_nested (u : SourceUnit) :
    (∀ d ∈ u.declarations, d.decl.outline.Nested u.text (Lexeme.ofSource u.text)) ∧
      u.declarations.Pairwise fun d d' => d.decl.span.stop ≤ d'.decl.span.start := by
  obtain ⟨hnested, hordered⟩ := Parse.over_typeDecls _ _ (Lexeme.inOrder_ofSource u.text)
  refine ⟨fun d hd => ?_, List.pairwise_map.2 (List.pairwise_map.1 hordered)⟩
  obtain ⟨t, ht, rfl⟩ := List.mem_map.1 hd
  exact hnested _ (List.mem_map_of_mem ht)

theorem sites_apart (u : SourceUnit) :
    u.declarations.Pairwise fun d d' => AllBefore d.sites d'.sites := by
  obtain ⟨hnested, hordered⟩ := u.declarations_nested
  refine hordered.imp_of_mem fun hd hd' hspan a ha b hb => ?_
  have := Declaration.starts_of_mem_sites (hnested _ hd) ha
  have := Declaration.starts_of_mem_sites (hnested _ hd') hb
  omega

/-- Calls are listed in the order of the text. -/
theorem pairwise_sites (u : SourceUnit) : u.sites.Pairwise Precedes :=
  List.pairwise_flatMap.2 ⟨fun _ hd => Declaration.pairwise_sites (u.declarations_nested.1 _ hd),
    u.sites_apart.imp AllBefore.precedes⟩

theorem visited_perm (u : SourceUnit) :
    u.visited.Perm (u.sites.filter (!·.inInvalidTarget)) := by
  rw [sites, List.filter_flatMap]
  exact List.Perm.flatMap_left _ fun d _ => d.visited_perm

/-- Going through fields first keeps the order of the text exactly if no field that holds a call
stands behind another member that holds one. -/
theorem pairwise_visited_iff (u : SourceUnit) :
    u.visited.Pairwise Precedes ↔ ∀ d ∈ u.declarations, d.FieldsFirst := by
  have hapart : u.declarations.Pairwise fun d d' =>
      ∀ a ∈ d.visited, ∀ b ∈ d'.visited, a.Precedes b := by
    refine u.sites_apart.imp fun {d d'} h a ha b hb => .inl (h a ?_ b ?_)
    · exact List.mem_of_mem_filter (d.visited_perm.subset ha)
    · exact List.mem_of_mem_filter (d'.visited_perm.subset hb)
  rw [visited, List.pairwise_flatMap, and_iff_left hapart]
  exact forall₂_congr fun d hd => Declaration.pairwise_visited_iff (u.declarations_nested.1 d hd)

end SourceUnit

end GenLang
