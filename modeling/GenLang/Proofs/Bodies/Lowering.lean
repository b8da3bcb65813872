import GenLang.Proofs.Scoping.Lowering
import GenLang.Proofs.Bodies.Footprint

/-!
# The footprint of what is lowered

One pass over all that is lowered: whatever its errors, it records the calls of the text in the
order in which it meets them and introduces a slot for every `let`; and if there is no error, it
reads the slots that the code reads.
-/

namespace GenLang

open Text

namespace Lowering

variable {α β : Type} {c : LoweringContext}

/-! ## Runs -/

/-- A run that starts in some scope leaves a footprint as wanted. -/
def Goes (c : LoweringContext) (x : Lowering α) (P : α → Footprint → Prop) : Prop :=
  ∀ s a s', s.scopes ≠ [] → (x.run c).run s = (a, s') → ∃ F, Evolves c s F s' ∧ P a F

theorem Goes.imp {x : Lowering α} {P Q : α → Footprint → Prop} (h : Goes c x P)
    (hPQ : ∀ a F, P a F → Q a F) : Goes c x Q := by
  intro s a s' hs hrun
  obtain ⟨F, hF, ha⟩ := h s a s' hs hrun
  exact ⟨F, hF, hPQ a F ha⟩

theorem goes_pure {P : α → Footprint → Prop} {a : α} (h : P a {}) : Goes c (pure a) P := by
  rintro s _ _ - ⟨⟩
  exact ⟨{}, .refl s, h⟩

/-- What is known of the state in between may count. -/
theorem goes_bind_run {x : Lowering α} {f : α → Lowering β} {P : α → Footprint → Prop}
    {Q : β → Footprint → Prop} (hx : Goes c x P)
    (hf : ∀ s a t F b u, (x.run c).run s = (a, t) → t.scopes ≠ [] → P a F →
      ((f a).run c).run t = (b, u) → ∃ G, Evolves c t G u ∧ Q b (F ++ G)) :
    Goes c (x >>= f) Q := by
  intro s b s' hs h
  obtain ⟨a, t, hrun, hrest⟩ := exists_of_run_bind h
  obtain ⟨F, hF, ha⟩ := hx s a t hs hrun
  obtain ⟨G, hG, hb⟩ := hf s a t F b s' hrun (hF.scopes.2 hs) ha hrest
  exact ⟨F ++ G, hF.trans hG, hb⟩

theorem goes_bind {x : Lowering α} {f : α → Lowering β} {P : α → Footprint → Prop}
    {Q : β → Footprint → Prop} (hx : Goes c x P)
    (hf : ∀ a F, P a F → Goes c (f a) fun b G => Q b (F ++ G)) : Goes c (x >>= f) Q :=
  goes_bind_run hx fun _ a t F b u _ ht ha => hf a F ha t b u ht

theorem goes_bind_pure {x : Lowering α} {f : α → β} {P : α → Footprint → Prop}
    {Q : β → Footprint → Prop} (hx : Goes c x P) (hf : ∀ a F, P a F → Q (f a) F) :
    Goes c (x >>= fun a => pure (f a)) Q :=
  goes_bind hx fun a F hF => goes_pure (F.append_empty.symm ▸ hf a F hF)

/-- What leaves no footprint comes before something else. -/
theorem goes_bind_reads {x : Lowering α} {f : α → Lowering β} {P : α → Prop}
    {Q : β → Footprint → Prop} (hx : Goes c x fun a F => F = {} ∧ P a)
    (hf : ∀ a, P a → Goes c (f a) Q) : Goes c (x >>= f) Q := by
  refine goes_bind hx fun a F hF => ?_
  obtain ⟨rfl, ha⟩ := hF
  exact hf a ha

theorem goes_read : Goes c read fun c' F => F = {} ∧ c' = c := by
  rintro s _ _ - ⟨⟩
  exact ⟨{}, .refl s, rfl, rfl⟩

theorem goes_get : Goes c get fun _ F => F = {} ∧ True := by
  rintro s _ _ - ⟨⟩
  exact ⟨{}, .refl s, rfl, trivial⟩

theorem goes_report {code : Code} (hcode : code ∈ codes) (span : Span) (message : String) :
    Goes c (report code span message) fun _ F => F = { failed := code.severity == .error } := by
  rintro s _ _ - ⟨⟩
  exact ⟨_, .report s hcode span message, rfl⟩

/-- Nothing but errors, and the result is as wanted if there is none. -/
def Quiet (P : α → Prop) (a : α) (F : Footprint) : Prop :=
  F.Silent ∧ (F.failed = false → P a)

theorem quiet_pure {P : α → Prop} {a : α} (h : P a) : Goes c (pure a) (Quiet P) :=
  goes_pure ⟨Footprint.traces_empty, fun _ => h⟩

theorem quiet_bind {x : Lowering α} {f : α → Lowering β} {P : α → Prop} {Q : β → Prop}
    (hx : Goes c x (Quiet P)) (hf : ∀ a, Goes c (f a) (Quiet fun b => P a → Q b)) :
    Goes c (x >>= f) (Quiet Q) := by
  refine goes_bind hx fun a F hF => (hf a).imp fun b G hG => ⟨hF.1.append hG.1, fun hok => ?_⟩
  rw [Footprint.failed_append, Bool.or_eq_false_iff] at hok
  exact hG.2 hok.2 (hF.2 hok.1)

theorem Goes.quiet {x : Lowering α} {P : α → Prop} (h : Goes c x fun a F => F = {} ∧ P a) :
    Goes c x (Quiet P) :=
  h.imp fun _ _ hF => ⟨hF.1 ▸ Footprint.traces_empty, fun _ => hF.2⟩

theorem quiet_report {code : Code} (hcode : code ∈ codes) (span : Span) (message : String) :
    Goes c (report code span message) (Quiet fun _ => True) :=
  (goes_report hcode span message).imp fun _ _ hF =>
    ⟨hF ▸ ⟨rfl, rfl, rfl, fun _ => rfl⟩, fun _ => trivial⟩

/-- Behind an error everything is as wanted. -/
theorem quiet_error {code : Code} (hcode : code ∈ codes ∧ code.severity = .error) (span : Span)
    (message : String) : Goes c (report code span message) (Quiet fun _ => False) :=
  (goes_report hcode.1 span message).imp fun _ _ hF =>
    ⟨hF ▸ ⟨rfl, rfl, rfl, fun _ => rfl⟩, fun hok => by simp [hF, hcode.2] at hok⟩

theorem quiet_error_pure {x : Lowering β} (hx : Goes c x (Quiet fun _ => False)) {a : α}
    {P : α → Prop} : Goes c (x >>= fun _ => pure a) (Quiet P) :=
  quiet_bind hx fun _ => quiet_pure False.elim

/-! ## Names -/

theorem goes_lookup (name : String) : Goes c (lookup name) fun _ F => F = {} ∧ True :=
  goes_bind_reads goes_get fun _ _ => goes_pure ⟨rfl, trivial⟩

theorem goes_lineOf (span : Span) :
    Goes c (lineOf span) fun line F => F = {} ∧ line = c.sources.line c.file span.start :=
  goes_bind_reads goes_read fun _ hc => goes_pure ⟨rfl, by rw [hc]⟩

theorem goes_isFree (name : String) : Goes c (isFree name) fun _ F => F = {} ∧ True :=
  goes_bind_reads goes_read fun _ _ => goes_bind_reads (goes_lookup name) fun _ _ =>
    goes_pure ⟨rfl, trivial⟩

theorem goes_resolve (name : String) (span : Span) :
    Goes c (resolve name span) (Quiet fun _ => True) := by
  refine goes_bind_reads goes_read fun c' _ => goes_bind_reads (goes_lookup name) fun slot _ => ?_
  cases slot with
  | some slot => exact quiet_pure trivial
  | none =>
    dsimp only
    split
    · split
      · exact quiet_pure trivial
      · split
        · exact quiet_error_pure (quiet_error (by decide) _ _)
        · exact quiet_pure trivial
    · exact quiet_error_pure (quiet_error (by decide) _ _)
    · split
      · exact quiet_pure trivial
      · exact quiet_error_pure (quiet_error (by decide) _ _)

theorem run_read_bind (f : LoweringContext → Lowering α) (s : LoweringState) :
    ((read >>= f).run c).run s = ((f c).run c).run s :=
  rfl

theorem run_lookup_bind (name : String) (f : Option Nat → Lowering α) (s : LoweringState) :
    ((lookup name >>= f).run c).run s = ((f (s.lookup name)).run c).run s :=
  rfl

/-- The local that a name is resolved to is in scope. -/
theorem mem_of_resolve {name : String} {span : Span} {s t : LoweringState} {slot : Nat}
    (h : ((resolve name span).run c).run s = (some (.slot slot), t)) :
    slot ∈ t.scopes.flatten := by
  unfold resolve at h
  rw [run_read_bind, run_lookup_bind] at h
  cases hlookup : s.lookup name with
  | some n =>
    rw [hlookup] at h
    cases h
    exact mem_flatten_of_lookup hlookup
  | none =>
    -- no other name stands for a slot
    rw [hlookup] at h
    dsimp only at h
    split at h
    · split at h
      · cases h
      · split at h <;> cases h
    · cases h
    · split at h <;> cases h

/-- What reads these slots follows what has read them. -/
theorem traces_quiet {F G : Footprint} {calls : List Call} {names : List Ident}
    {slots reads : List Nat} (h : F.Traces calls names slots reads) {e : Image.Expr}
    (h' : Quiet (·.reads = reads) e G) : (F ++ G).Traces calls names slots e.reads := by
  refine (h.silent h'.1).of_reads fun hok => ?_
  rw [Footprint.failed_append, Bool.or_eq_false_iff] at hok
  exact (h'.2 hok.2).symm

/-- The footprint of an expression that becomes code. -/
abbrev Traced (e : Expr) (a : Image.Expr) (F : Footprint) : Prop :=
  F.Traces e.calls [] [] a.reads

/-- The slots that a value in front of a dot reads. -/
def Receiver.reads : Receiver → List Nat
  | value e => e.reads
  | type _ | unresolved => []

theorem goes_receiver {e : Expr} {value : Lowering Image.Expr} (h : Goes c value (Traced e)) :
    Goes c (receiver e value) fun r F =>
      F.Traces e.calls [] [] r.reads ∧ (F.failed = false → r ≠ .unresolved) := by
  have hvalue : Goes c (do return Receiver.value (← value)) fun r F =>
      F.Traces e.calls [] [] r.reads ∧ (F.failed = false → r ≠ .unresolved) :=
    goes_bind_pure h fun v F hF => ⟨hF, fun _ => by simp⟩
  unfold receiver
  split
  · next span name =>
    refine goes_bind_reads (goes_isFree name) fun free _ => ?_
    cases free with
    | false => exact hvalue
    | true =>
      refine goes_bind_reads goes_read fun c' _ => ?_
      split
      · exact goes_pure ⟨Footprint.traces_empty, fun _ => by simp⟩
      · refine goes_bind_pure (quiet_error (by decide) _ _) fun _ F hF => ⟨hF.1, fun hok => ?_⟩
        exact (hF.2 hok).elim
  · exact hvalue

/-! ## Calls -/

theorem goes_calledType {target : Expr} (call : Call) (hcall : call.receiver = some target) :
    Goes c (calledType target) fun t F => F = {} ∧ t ∈ call.typeNames c.owner.name := by
  unfold calledType Call.typeNames
  rw [hcall]
  split
  · refine goes_bind_reads (goes_isFree _) fun free _ => ?_
    cases free <;> exact goes_pure ⟨rfl, by simp⟩
  · refine goes_bind_reads goes_read fun c' hc => goes_pure ⟨rfl, ?_⟩
    rw [hc]
    exact List.mem_singleton_self _
  · next hname hself =>
    refine goes_pure ⟨rfl, ?_⟩
    cases target with
    | name span n => exact absurd rfl (hname span n)
    | self span => exact absurd rfl (hself span)
    | _ => exact List.mem_singleton_self _

theorem goes_recordInvocation {typeName : Option String} (call : Call)
    (htype : typeName ∈ call.typeNames c.owner.name) :
    Goes c (recordInvocation typeName call.method call.args call.span) fun _ F =>
      F.Traces [call] [] [] [] := by
  refine goes_bind_reads goes_read fun c' hc => goes_bind_reads (goes_lineOf _) fun line hline => ?_
  rintro s _ _ - ⟨⟩
  subst hc hline
  exact ⟨_, .record s ⟨htype, rfl, rfl, rfl, rfl, rfl⟩, rfl, rfl, rfl, fun _ => rfl⟩

theorem goes_checkArity (m : MethodSymbol) (count : Nat) (span : Span) :
    Goes c (checkArity m count span) (Quiet fun _ => True) := by
  unfold checkArity
  split
  · exact quiet_pure trivial
  · exact quiet_report (by decide) _ _

theorem goes_staticRead (t : TypeSymbol) (name : Ident) :
    Goes c (staticRead t name) (Quiet (·.reads = [])) := by
  refine goes_bind_reads goes_read fun c' _ => ?_
  split
  · split
    · exact quiet_pure rfl
    · exact quiet_error_pure (quiet_error (by decide) _ _)
  · split <;> exact quiet_error_pure (quiet_error (by decide) _ _)
  · exact quiet_error_pure (quiet_error (by decide) _ _)

section

variable {args : List Image.Expr}

theorem goes_staticCall (t : TypeSymbol) (name : Ident) :
    Goes c (staticCall t name args) (Quiet (·.reads = Image.Expr.readsAll args)) := by
  refine goes_bind_reads goes_read fun c' _ => ?_
  split
  · split
    · exact quiet_bind (goes_checkArity _ _ _) fun _ => quiet_pure fun _ => rfl
    · exact quiet_error_pure (quiet_error (by decide) _ _)
  · exact quiet_error_pure (quiet_error (by decide) _ _)

theorem goes_ownCall (name : String) (span : Span) :
    Goes c (ownCall name span args) (Quiet (·.reads = Image.Expr.readsAll args)) := by
  refine goes_bind_reads goes_read fun c' _ => goes_bind_reads (goes_lookup name) fun slot _ => ?_
  split
  · exact quiet_error_pure (quiet_error (by decide) _ _)
  split
  · exact quiet_error_pure (quiet_error (by decide) _ _)
  · refine quiet_bind (goes_checkArity _ _ _) fun _ => ?_
    split
    · exact quiet_pure fun _ => rfl
    · split
      · exact quiet_error_pure (quiet_error (by decide) _ _)
      · exact quiet_pure fun _ => rfl

theorem goes_newObject (type : Ident) :
    Goes c (newObject type args) (Quiet (·.reads = Image.Expr.readsAll args)) := by
  refine goes_bind_reads goes_read fun c' _ => ?_
  dsimp only
  split
  · exact quiet_error_pure (quiet_error (by decide) _ _)
  · next t _ =>
    have hchecked (fits : Bool) (message : String) :
        Goes c (do
          if !fits then report .argumentCount type.span message
          return Image.Expr.new t.ref args) (Quiet (·.reads = Image.Expr.readsAll args)) := by
      cases fits
      · exact quiet_error_pure (quiet_error (by decide) _ _)
      · exact quiet_pure rfl
    split
    · exact quiet_error_pure (quiet_error (by decide) _ _)
    · exact hchecked _ _

end

/-! ## Expressions -/

theorem goes_name (span : Span) (name : String) :
    Goes c (expr (.name span name)) (Traced (.name span name)) := by
  rw [expr]
  refine goes_bind_run (goes_resolve name span) fun s r t F a u hr ht hF hrun => ?_
  rcases r with _ | r
  · cases hrun
    exact ⟨{}, .refl _, hF.1.append Footprint.traces_empty⟩
  · cases r with
    | slot slot =>
      cases hrun
      exact ⟨_, .read t (mem_of_resolve hr), hF.1.append ⟨rfl, rfl, rfl, fun _ => rfl⟩⟩
    | staticField owner name | instanceField name | type t =>
      cases hrun
      exact ⟨{}, .refl _, hF.1.append Footprint.traces_empty⟩

theorem goes_memberCall {target : Expr} {args : List Expr} (span memberSpan : Span) (name : Ident)
    (htarget : Goes c (expr target) (Traced target))
    (hargs : Goes c (exprs args) fun as F =>
      F.Traces (Expr.callsAll args) [] [] (Image.Expr.readsAll as)) :
    Goes c (expr (.call span (.member memberSpan target name) args))
      (Traced (.call span (.member memberSpan target name) args)) := by
  rw [expr]
  refine goes_bind_reads (goes_calledType ⟨span, some target, name.name, args⟩ rfl) fun t ht => ?_
  refine goes_bind (goes_recordInvocation ⟨span, some target, name.name, args⟩ ht)
    fun _ F hF => ?_
  refine goes_bind (goes_receiver htarget) fun r G hG => ?_
  refine goes_bind hargs fun es H hH => ?_
  cases r with
  | type t =>
    refine (goes_staticCall t name).imp fun a K hK => ?_
    exact hF.append (hG.1.append (traces_quiet hH hK))
  | value target => exact goes_pure (H.append_empty.symm ▸ hF.append (hG.1.append hH))
  | unresolved =>
    refine goes_pure (H.append_empty.symm ▸ (hF.append (hG.1.append hH)).of_reads fun hok => ?_)
    simp only [Footprint.failed_append, Bool.or_eq_false_iff] at hok
    exact absurd rfl (hG.2 hok.2.1)

mutual

theorem goes_expr : ∀ e : Expr, Goes c (expr e) (Traced e)
  | .lit _ value => by
    rw [expr]
    exact goes_pure Footprint.traces_empty
  | .name span name => goes_name span name
  | .self span => by
    rw [expr]
    refine goes_bind_reads goes_read fun c' _ => ?_
    split
    · exact goes_bind_pure (quiet_report (by decide) _ _) fun _ _ hF => hF.1
    · exact goes_pure Footprint.traces_empty
  | .list _ items => by
    rw [expr]
    exact goes_bind_pure (goes_exprs items) fun _ _ hF => hF
  | .new _ type args => by
    rw [expr]
    refine goes_bind (goes_exprs args) fun es F hF => ?_
    exact (goes_newObject type).imp fun _ _ hG => traces_quiet hF hG
  | .member _ target name => by
    rw [expr]
    refine goes_bind (goes_receiver (goes_expr target)) fun r F hF => ?_
    cases r with
    | type t => exact (goes_staticRead t name).imp fun _ _ hG => traces_quiet hF.1 hG
    | value target => exact goes_pure (F.append_empty.symm ▸ hF.1)
    | unresolved => exact goes_pure (F.append_empty.symm ▸ hF.1)
  | .call span (.member memberSpan target name) args =>
    goes_memberCall span memberSpan name (goes_expr target) (goes_exprs args)
  | .call span (.name nameSpan name) args => by
    rw [expr]
    refine goes_bind_reads goes_read fun c' hc => ?_
    refine goes_bind (goes_recordInvocation ⟨span, none, name, args⟩ ?_) fun _ F hF => ?_
    · exact hc ▸ List.mem_singleton_self _
    refine goes_bind (goes_exprs args) fun es G hG => ?_
    exact (goes_ownCall name nameSpan).imp fun a H hH => hF.append (traces_quiet hG hH)
  | .call _ (.lit _ _) args | .call _ (.self _) args | .call _ (.list _ _) args
  | .call _ (.new _ _ _) args | .call _ (.call _ _ _) args | .call _ (.index _ _ _) args
  | .call _ (.unary _ _ _) args | .call _ (.binary _ _ _ _) args | .call _ (.await _ _) args => by
    -- Only methods are called.
    rw [expr]
    · refine goes_bind (goes_expr _) fun _ F hF => goes_bind (goes_exprs args) fun _ G hG => ?_
      refine goes_bind_pure (quiet_error (by decide) _ _) fun _ H hH => ?_
      refine (hF.append (hG.silent hH.1)).of_reads fun hok => ?_
      simp only [Footprint.failed_append, Bool.or_eq_false_iff] at hok
      exact (hH.2 hok.2.2).elim
    all_goals nofun
  | .index _ target i => by
    rw [expr]
    refine goes_bind (goes_expr target) fun t F hF => ?_
    exact goes_bind_pure (goes_expr i) fun n G hG => hF.append hG
  | .unary _ op operand => by
    rw [expr]
    exact goes_bind_pure (goes_expr operand) fun _ _ hF => hF
  | .binary _ op lhs rhs => by
    rw [expr]
    refine goes_bind (goes_expr lhs) fun a F hF => ?_
    exact goes_bind_pure (goes_expr rhs) fun b G hG => hF.append hG
  | .await _ operand => by
    rw [expr]
    exact goes_bind_pure (goes_expr operand) fun _ _ hF => hF

theorem goes_exprs : ∀ es : List Expr, Goes c (exprs es) fun as F =>
    F.Traces (Expr.callsAll es) [] [] (Image.Expr.readsAll as)
  | [] => by
    rw [exprs]
    exact goes_pure Footprint.traces_empty
  | e :: es => by
    rw [exprs]
    refine goes_bind (goes_expr e) fun a F hF => ?_
    exact goes_bind_pure (goes_exprs es) fun as G hG => hF.append hG

end

/-- The footprint of expressions of statements that become code. -/
def Reached (ps : List Part) : List Call :=
  Part.callsAll (ps.filter (!·.invalid))

theorem reached_append (ps qs : List Part) : Reached (ps ++ qs) = Reached ps ++ Reached qs := by
  rw [Reached, List.filter_append, Part.callsAll_append, Reached, Reached]

theorem reached_value (e : Expr) (ps : List Part) :
    Reached (.value e :: ps) = e.calls ++ Reached ps :=
  rfl

theorem goes_value (e : Expr) :
    Goes c (expr e) fun a F => F.Traces (Reached [.value e]) [] [] a.reads := by
  refine (goes_expr e).imp fun a F hF => ?_
  rw [reached_value]
  exact (List.append_nil e.calls).symm ▸ hF

theorem goes_expr? (e : Option Expr) :
    Goes c (expr? e) fun a F =>
      F.Traces (Reached (e.toList.map .value)) [] [] (a.elim [] Image.Expr.reads) := by
  cases e with
  | none => exact goes_pure Footprint.traces_empty
  | some e => exact goes_bind_pure (goes_value e) fun _ _ hF => hF

theorem goes_place (target : Expr) :
    Goes c (place target) fun p F =>
      F.Traces (Reached [.target target]) [] [] (p.elim [] Image.Place.reads) := by
  unfold place
  split
  · next span name =>
    refine goes_bind (goes_resolve name span) fun r F hF => ?_
    rcases r with _ | r
    · exact goes_pure (F.append_empty.symm ▸ hF.1)
    · cases r with
      | slot slot | staticField owner name | instanceField name =>
        exact goes_pure (F.append_empty.symm ▸ hF.1)
      | type t =>
        exact goes_bind_pure (quiet_report (by decide) _ _) fun _ _ hG => hF.1.append hG.1
  · next span inner name =>
    refine goes_bind (goes_receiver (goes_expr inner)) fun r F hF => ?_
    have hinner := hF.1
    rw [← List.append_nil inner.calls] at hinner
    cases r with
    | type t =>
      refine goes_bind_reads goes_read fun c' _ => ?_
      split
      · split
        · exact goes_pure (F.append_empty.symm ▸ hinner)
        · exact goes_bind_pure (quiet_report (by decide) _ _) fun _ _ hG => hinner.silent hG.1
      · exact goes_bind_pure (quiet_report (by decide) _ _) fun _ _ hG => hinner.silent hG.1
      · exact goes_bind_pure (quiet_report (by decide) _ _) fun _ _ hG => hinner.silent hG.1
    | value inner | unresolved => exact goes_pure (F.append_empty.symm ▸ hinner)
  · next span target i =>
    refine goes_bind (goes_expr target) fun t F hF => ?_
    refine goes_bind_pure (goes_expr i) fun n G hG => ?_
    have hall := hF.append hG
    rw [← List.append_nil (target.calls ++ i.calls)] at hall
    exact hall
  · next hname hmember hindex =>
    refine goes_bind_pure (quiet_report (by decide) _ _) fun _ F hF => ?_
    -- what stands in such a target is not lowered
    cases target with
    | name span n => exact absurd rfl (hname span n)
    | member span e i => exact absurd rfl (hmember span e i)
    | index span e i => exact absurd rfl (hindex span e i)
    | _ => exact hF.1

/-! ## Scopes -/

theorem run_bind (x : Lowering α) (f : α → Lowering β) (s : LoweringState) :
    ((x >>= f).run c).run s = ((f ((x.run c).run s).1).run c).run ((x.run c).run s).2 :=
  rfl

theorem run_get_bind (f : LoweringState → Lowering α) (s : LoweringState) :
    ((get >>= f).run c).run s = ((f s).run c).run s :=
  rfl

theorem run_reportUnused (slot : Nat) (s : LoweringState) :
    ((reportUnused slot).run c).run s =
      ((), s.note (c.unusedAll (s.pending? slot).toList)) := by
  unfold reportUnused LoweringState.pending?
  rw [run_get_bind]
  cases s.locals[slot]? with
  | none =>
    rw [Option.toList_none, LoweringContext.unusedAll, List.map_nil,
      LoweringState.note_nil]
    rfl
  | some l =>
    dsimp only
    split
    · rw [Option.toList_some, LoweringContext.unusedAll, List.map_singleton,
        LoweringState.note, ← Array.push_eq_append]
      rfl
    · rw [Option.toList_none, LoweringContext.unusedAll, List.map_nil,
      LoweringState.note_nil]
      rfl

theorem run_forM_reportUnused (scope : List Nat) (s : LoweringState) :
    ((scope.forM reportUnused).run c).run s =
      ((), s.note (c.unusedAll (scope.filterMap s.pending?))) := by
  induction scope generalizing s with
  | nil =>
    rw [List.filterMap_nil, LoweringContext.unusedAll, List.map_nil,
      LoweringState.note_nil]
    rfl
  | cons slot scope ih =>
    change ((reportUnused slot >>= fun _ => scope.forM reportUnused).run c).run s = _
    rw [run_bind, run_reportUnused, ih, LoweringState.note_note, LoweringState.pending?_note,
      List.filterMap_cons]
    cases s.pending? slot <;> rfl

theorem run_popScope {s : LoweringState} {scope : List Nat} {rest : List (List Nat)}
    (h : s.scopes = scope :: rest) : (popScope.run c).run s = ((), s.close c scope rest) := by
  unfold popScope
  rw [run_get_bind, h]
  exact run_forM_reportUnused scope _

/-- In a scope of its own what is lowered leaves the same footprint, wherever that is. -/
theorem evolves_inScope {body : Lowering α} {P : α → Footprint → Prop} (h : Goes c body P)
    {s s' : LoweringState} {a : α} (hrun : ((inScope body).run c).run s = (a, s')) :
    ∃ F, Evolves c s F s' ∧ P a F ∧ s'.scopes = s.scopes := by
  cases hbody : (body.run c).run { s with scopes := [] :: s.scopes } with
  | mk b t =>
    obtain ⟨F, hF, hb⟩ := h _ b t (List.cons_ne_nil _ _) hbody
    cases hscopes : t.scopes with
    | nil => exact absurd hscopes (hF.scopes.2 (List.cons_ne_nil _ _))
    | cons scope rest =>
      have hclose : ((inScope body).run c).run s = (b, t.close c scope rest) := by
        unfold inScope
        rw [run_bind, run_bind]
        rw [show ((body.run c).run ((pushScope.run c).run s).2) = (b, t) from hbody]
        rw [run_bind, run_popScope hscopes]
        rfl
      rw [hclose] at hrun
      cases hrun
      exact ⟨F, .scope hF hscopes, hb, hF.scopes_close hscopes⟩

theorem goes_inScope {body : Lowering α} {P : α → Footprint → Prop} (h : Goes c body P) :
    Goes c (inScope body) P := by
  intro s a s' _ hrun
  obtain ⟨F, hF, ha, -⟩ := evolves_inScope h hrun
  exact ⟨F, hF, ha⟩

theorem goes_declare (name : Ident) (warnUnused : Bool) :
    Goes c (declare name warnUnused) fun slot F =>
      F.Traces [] (if warnUnused then [name] else []) (if warnUnused then [slot] else []) [] := by
  have hnew : Goes c (do
      let slot := (← get).locals.size
      modify (·.extend name warnUnused)
      return slot) fun slot F =>
        F.Traces [] (if warnUnused then [name] else []) (if warnUnused then [slot] else []) [] := by
    rintro s _ _ hs ⟨⟩
    refine ⟨_, .declare s hs name warnUnused, ?_⟩
    cases warnUnused <;> exact ⟨rfl, rfl, rfl, fun _ => rfl⟩
  refine goes_bind_reads (goes_lookup name.name) fun found _ => ?_
  split
  · refine goes_bind (quiet_report (by decide) _ _) fun _ F hF => hnew.imp fun slot G hG => ?_
    exact hF.1.append hG
  · exact hnew

/-! ## Statements -/

theorem goes_setDepth (f : LoweringState → Nat) :
    Goes c (modify fun s => { s with loopDepth := f s }) fun _ F => F = {} ∧ True := by
  rintro s _ _ - ⟨⟩
  exact ⟨{}, .loop s (f s), rfl, trivial⟩

theorem goes_inLoop {body : Lowering α} {P : α → Footprint → Prop} (h : Goes c body P) :
    Goes c (inLoop body) P := by
  refine goes_bind_reads (goes_setDepth _) fun _ _ => goes_bind h fun a F hF => ?_
  exact goes_bind_reads (goes_setDepth _) fun _ _ => goes_pure (F.append_empty.symm ▸ hF)

theorem goes_checkLoop (span : Span) (word : String) :
    Goes c (checkLoop span word) (Quiet fun _ => True) := by
  refine goes_bind_reads goes_get fun s _ => ?_
  split
  · exact quiet_report (by decide) _ _
  · exact quiet_pure trivial

theorem goes_enter (r : Reach) (span : Span) : Goes c (r.enter span) (Quiet fun _ => True) := by
  unfold Reach.enter
  split
  · exact quiet_bind (quiet_report (by decide) _ _) fun _ => quiet_pure fun _ => trivial
  · exact quiet_pure trivial

theorem goes_binding (binding : Option Ident) :
    Goes c (match binding with
      | some name => some <$> declare name false
      | none => pure none) fun _ F => F.Silent := by
  cases binding with
  | none => exact goes_pure Footprint.traces_empty
  | some name => exact goes_bind_pure (goes_declare name false) fun _ _ hF => hF

/-- The footprint of a statement that becomes code. -/
abbrev TracedStmt (s : Stmt) (a : Image.Stmt) (F : Footprint) : Prop :=
  F.Traces (Reached s.parts) s.lets a.lets a.reads

/-- The footprint of statements that become the code of a block. -/
abbrev TracedAll (ps : List Part) (names : List Ident) (as : List Image.Stmt) (F : Footprint) :
    Prop :=
  F.Traces (Reached ps) names (Image.Stmt.letsAll as) (Image.Stmt.readsAll as)

mutual

theorem goes_stmt : ∀ s : Stmt, Goes c (stmt s) (TracedStmt s)
  | .declare span name init => by
    rw [stmt]
    refine goes_bind_reads (goes_lineOf span) fun line _ => ?_
    refine goes_bind (goes_expr? init) fun e F hF => ?_
    refine goes_bind_pure (goes_declare name true) fun slot G hG => ?_
    have hall := hF.append hG
    rw [List.append_nil, List.append_nil] at hall
    exact hall
  -- The value is lowered behind the target, whatever kind of place that is.
  | .assign span target value => by
    rw [stmt]
    refine goes_bind_reads (goes_lineOf span) fun line _ => ?_
    refine goes_bind (goes_place target) fun p F hF => ?_
    refine goes_bind (goes_value value) fun v G hG => ?_
    have hall := hF.append hG
    rw [← reached_append] at hall
    cases p <;> exact goes_pure (G.append_empty.symm ▸ hall)
  | .expr span e => by
    rw [stmt]
    refine goes_bind_reads (goes_lineOf span) fun line _ => ?_
    exact goes_bind_pure (goes_value e) fun _ _ hF => hF
  | .cond branch => by
    rw [stmt]
    exact goes_conditional branch
  | .whileLoop span cond body => by
    rw [stmt]
    refine goes_bind_reads (goes_lineOf span) fun line _ => ?_
    refine goes_bind (goes_expr cond) fun e F hF => ?_
    exact goes_bind_pure (goes_inLoop (goes_block body)) fun b G hG => hF.append hG
  -- What is gone through stands outside the scope of the loop variable.
  | .forLoop span item iterable body => by
    rw [stmt]
    refine goes_bind_reads (goes_lineOf span) fun line _ => ?_
    refine goes_bind (goes_expr iterable) fun e F hF => goes_inScope ?_
    refine goes_bind (goes_declare item false) fun slot G hG => ?_
    exact goes_bind_pure (goes_inLoop (goes_block body)) fun b H hH => hF.append (hG.append hH)
  | .ret span value => by
    rw [stmt]
    refine goes_bind_reads (goes_lineOf span) fun line _ => ?_
    exact goes_bind_pure (goes_expr? value) fun _ _ hF => hF
  | .throw span value => by
    rw [stmt]
    refine goes_bind_reads (goes_lineOf span) fun line _ => ?_
    exact goes_bind_pure (goes_value value) fun _ _ hF => hF
  | .tryCatch span body binding handler => by
    rw [stmt]
    refine goes_bind_reads (goes_lineOf span) fun line _ => ?_
    refine goes_bind (goes_block body) fun b F hF => goes_inScope ?_
    -- the binding leaves no trace, so that both kinds of handlers follow in one way
    have hhandler (slot : Option Nat) {G : Footprint} (hG : G.Silent) : Goes c (do
        let handler ← block handler
        return Image.Stmt.tryCatch line b slot handler) fun s H =>
          TracedStmt (.tryCatch span body binding handler) s (F ++ (G ++ H)) := by
      refine goes_bind_pure (goes_block handler) fun h H hH => ?_
      have hall := hF.append (hG.append hH)
      rw [← reached_append] at hall
      exact hall
    cases binding with
    | none => exact goes_bind (goes_binding none) fun slot G hG => hhandler slot hG
    | some name => exact goes_bind (goes_binding (some name)) fun slot G hG => hhandler slot hG
  | .breakLoop span => by
    rw [stmt]
    refine goes_bind_reads (goes_lineOf span) fun line _ => ?_
    exact goes_bind_pure (goes_checkLoop span _) fun _ _ hF => hF.1
  | .continueLoop span => by
    rw [stmt]
    refine goes_bind_reads (goes_lineOf span) fun line _ => ?_
    exact goes_bind_pure (goes_checkLoop span _) fun _ _ hF => hF.1
  | .nested b => by
    rw [stmt]
    refine goes_bind_reads (goes_lineOf _) fun line _ => ?_
    exact goes_bind_pure (goes_block b) fun _ _ hF => hF

theorem goes_block : ∀ b : Block, Goes c (block b) (TracedAll b.parts b.lets)
  | .mk _ ss => by
    rw [block]
    exact goes_inScope (goes_stmts .reachable ss)

theorem goes_conditional : ∀ b : Conditional, Goes c (conditional b) fun a F =>
    F.Traces (Reached b.parts) b.lets a.lets a.reads
  | .mk span cond thenBlock otherwise => by
    rw [conditional]
    refine goes_bind_reads (goes_lineOf span) fun line _ => ?_
    refine goes_bind (goes_expr cond) fun e F hF => ?_
    refine goes_bind (goes_block thenBlock) fun a G hG => ?_
    have hcond {ps : List Part} {names : List Ident} {b : List Image.Stmt} {H : Footprint}
        (hH : TracedAll ps names b H) : (F ++ (G ++ H)).Traces
          (Reached (.value cond :: thenBlock.parts ++ ps)) (thenBlock.lets ++ names)
          (Image.Stmt.cond line e a b).lets (Image.Stmt.cond line e a b).reads := by
      rw [List.cons_append, reached_value, reached_append]
      exact hF.append (hG.append hH)
    match otherwise with
    | .none => exact goes_pure (hcond Footprint.traces_empty)
    | .block other => exact goes_bind_pure (goes_block other) fun b H hH => hcond hH
    | .chain next =>
      refine goes_bind_pure (goes_conditional next) fun s H hH => hcond ?_
      rwa [TracedAll, Image.Stmt.letsAll, Image.Stmt.letsAll, Image.Stmt.readsAll,
        Image.Stmt.readsAll, List.append_nil, List.append_nil]

theorem goes_stmts : ∀ (r : Reach) (ss : List Stmt),
    Goes c (stmts r ss) (TracedAll (Stmt.partsAll ss) (Stmt.letsAll ss))
  | _, [] => by
    rw [stmts]
    exact goes_pure Footprint.traces_empty
  | r, s :: ss => by
    rw [stmts]
    refine goes_bind (goes_enter r s.span) fun r' F hF => ?_
    refine goes_bind (goes_stmt s) fun a G hG => ?_
    refine goes_bind_pure (goes_stmts _ ss) fun as H hH => ?_
    have hall := hF.1.append (hG.append hH)
    rw [← reached_append] at hall
    exact hall

end

/-! ## Members -/

theorem goes_params (ps : List Param) : Goes c (ps.mapM param) fun _ F => F.Silent := by
  induction ps with
  | nil =>
    rw [List.mapM_nil]
    exact goes_pure Footprint.traces_empty
  | cons p ps ih =>
    have hparam : Goes c (param p) fun _ F => F.Silent :=
      goes_bind_pure (goes_declare p.name false) fun _ _ hF => hF
    rw [List.mapM_cons]
    refine goes_bind hparam fun d F hF => ?_
    exact goes_bind_pure ih fun _ _ hG => hF.append hG

theorem goes_body? (b : Option Block) :
    Goes c (body? b) fun as F =>
      TracedAll (b.toList.flatMap Block.parts) (b.elim [] Block.lets) (as.getD []) F := by
  cases b with
  | none => exact goes_pure Footprint.traces_empty
  | some b =>
    refine goes_bind_pure (goes_block b) fun _ _ hF => ?_
    rw [Option.toList_some, List.flatMap_singleton]
    exact hF

end Lowering

/-- The names that `let` introduces in a method, in the order of the text. -/
def MethodDecl.lets (m : MethodDecl) : List Ident :=
  m.body.elim [] Block.lets

/-- The slots that declarations of locals introduce in a method, in the order of the code. -/
def MethodDef.lets (m : MethodDef) : List Nat :=
  Image.Stmt.letsAll (m.body.getD [])

/-- The slots that the body of a method reads. -/
def MethodDef.reads (m : MethodDef) : List Nat :=
  Image.Stmt.readsAll (m.body.getD [])

namespace Lowering

/-- What was noted of a member, where lowering it left a footprint. -/
structure Notes.Tell (n : Notes) (c : LoweringContext) (F : Footprint) (s : LoweringState) :
    Prop where
  evolves : Evolves c {} F s
  scopes : s.scopes = []
  diagnostics : n.diagnostics = s.diagnostics.toList
  invocations : n.invocations = s.invocations.toList

variable {c : LoweringContext}

theorem tell_method (m : MethodDecl) :
    ∃ F s, (member c (method m)).2.Tell c F s ∧
      F.Traces (Reached (Member.method m).parts) m.lets (member c (method m)).1.lets
        (member c (method m)).1.reads := by
  have hgoes : Goes c (do
      let params ← m.params.mapM param
      return (params, ← body? m.body)) fun r F =>
        F.Traces (Reached (Member.method m).parts) m.lets (Image.Stmt.letsAll (r.2.getD []))
          (Image.Stmt.readsAll (r.2.getD [])) := by
    refine goes_bind (goes_params m.params) fun ps F hF => ?_
    exact goes_bind_pure (goes_body? m.body) fun b G hG => hF.append hG
  obtain ⟨F, hF, htraces, hscopes⟩ := evolves_inScope hgoes (s := {}) rfl
  exact ⟨F, _, ⟨hF, hscopes, rfl, rfl⟩, htraces⟩

theorem tell_field (f : FieldDecl) :
    ∃ F s, (member c (field f)).2.Tell c F s ∧ F.calls = Reached (Member.field f).parts ∧
      F.lets = [] := by
  obtain ⟨F, hF, htraces, hscopes⟩ := evolves_inScope (goes_expr? (c := c) f.init) (s := {}) rfl
  exact ⟨F, _, ⟨hF, hscopes, rfl, rfl⟩, htraces.calls, List.map_eq_nil_iff.1 htraces.names⟩

/-- Where a member of a declaration is lowered. -/
def memberContext (sources : Sources) (table : SymbolTable) (d : Declaration) (name : Ident)
    (isStatic : Bool) : LoweringContext :=
  ⟨sources, table, d.symbol, d.file, d.decl.name.name ++ "." ++ name.name, isStatic⟩

end Lowering

end GenLang
