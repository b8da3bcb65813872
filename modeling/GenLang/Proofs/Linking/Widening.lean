import GenLang.Proofs.Linking.Extension

/-!
# Lowering in a larger table

Code that is lowered without errors becomes the same code where more types are known and more files
are read, as long as its own file is the same. And whatever lowering reports, it reports in the file
it is at.
-/

namespace GenLang

open Text

/-- A diagnostic at a place of a file, or at none. -/
def Diagnostic.IsOf (file : String) (d : Diagnostic) : Prop :=
  ∀ l ∈ d.location, l.file = file

theorem Sources.isOf_diagnostic (sources : Sources) (code : Code) (file : String) (span : Span)
    (message : String) : (sources.diagnostic code file span message).IsOf file := by
  intro l hl
  unfold Sources.diagnostic at hl
  split at hl <;> cases hl
  rfl

/-- A later state keeps the diagnostics there are, and those it adds are of a file. -/
structure LoweringState.Grows (file : String) (s t : LoweringState) : Prop where
  keeps : ∀ d ∈ s.diagnostics, d ∈ t.diagnostics
  adds : ∀ d ∈ t.diagnostics, d ∈ s.diagnostics ∨ d.IsOf file

namespace LoweringState

variable {file : String} {s t u : LoweringState}

theorem grows_of_eq (h : t.diagnostics = s.diagnostics) : s.Grows file t :=
  ⟨fun _ hd => h ▸ hd, fun _ hd => .inl (h ▸ hd)⟩

theorem Grows.trans (hst : s.Grows file t) (htu : t.Grows file u) : s.Grows file u := by
  refine ⟨fun d hd => htu.keeps d (hst.keeps d hd), fun d hd => ?_⟩
  rcases htu.adds d hd with hd | hd
  · exact hst.adds d hd
  · exact .inr hd

theorem Grows.clean (h : s.Grows file t) (ht : t.Clean) : s.Clean :=
  fun d hd => ht d (h.keeps d hd)

end LoweringState

/-- The same place in another program. -/
def LoweringContext.widen (c : LoweringContext) (sources : Sources) (table : SymbolTable) :
    LoweringContext :=
  { c with sources, table }

/-- Another program has the same text at a place, and what is known there is known to it. -/
structure Widens (c : LoweringContext) (sources : Sources) (table : SymbolTable) : Prop where
  table : c.table.Agrees table
  known : c.owner ∈ c.table.types
  text : sources.text? c.file = c.sources.text? c.file

namespace Widens

variable {c : LoweringContext} {sources : Sources} {table : SymbolTable}

theorem line (h : Widens c sources table) (offset : Nat) :
    sources.line c.file offset = c.sources.line c.file offset := by
  rw [Sources.line, h.text, ← Sources.line]

theorem diagnostic (h : Widens c sources table) (code : Code) (span : Span) (message : String) :
    sources.diagnostic code c.file span message =
      c.sources.diagnostic code c.file span message := by
  rw [Sources.diagnostic, h.text, ← Sources.diagnostic]

theorem member? (h : Widens c sources table) (name : String) :
    table.member? c.owner.name name = c.table.member? c.owner.name name :=
  h.table.member?_eq (List.mem_map_of_mem h.known) name

theorem method? (h : Widens c sources table) (name : String) :
    table.method? c.owner.name name = c.table.method? c.owner.name name :=
  h.table.method?_eq (List.mem_map_of_mem h.known) name

end Widens

namespace Lowering

variable {α β : Type} {c c' : LoweringContext} {H : Prop}

/-! ## Runs that follow another -/

/-- What a run reports is of its file, and one that reports no error is what the other program does
in the other context. That is claimed only under `H`: nothing is known of the other context where a
program is itself in error. -/
def Follows (H : Prop) (c c' : LoweringContext) (x x' : Lowering α) : Prop :=
  ∀ s, s.Grows c.file ((x.run c).run s).2 ∧
    (H → ((x.run c).run s).2.Clean → (x'.run c').run s = (x.run c).run s)

theorem follows_pure (a : α) : Follows H c c' (pure a) (pure a) :=
  fun _ => ⟨LoweringState.grows_of_eq rfl, fun _ _ => rfl⟩

theorem Follows.imp {H' : Prop} {x x' : Lowering α} (h : Follows H c c' x x') (hH : H' → H) :
    Follows H' c c' x x' :=
  fun s => ⟨(h s).1, fun h' => (h s).2 (hH h')⟩

theorem follows_congr {x x' x'' : Lowering α} (h : H → x'' = x') (hx : Follows H c c' x x') :
    Follows H c c' x x'' := by
  refine fun s => ⟨(hx s).1, fun hH => ?_⟩
  rw [h hH]
  exact (hx s).2 hH

/-- What comes behind may use what is known of a result without errors. -/
theorem follows_bind_of {x x' : Lowering α} {f f' : α → Lowering β} {P : α → Prop}
    (hx : Follows H c c' x x') (hP : Ensures c x P)
    (hf : ∀ a, Follows (H ∧ P a) c c' (f a) (f' a)) :
    Follows H c c' (x >>= f) (x' >>= f') := by
  intro s
  obtain ⟨hgrows, hsame⟩ := hx s
  obtain ⟨hgrows', hsame'⟩ := hf ((x.run c).run s).1 ((x.run c).run s).2
  refine ⟨hgrows.trans hgrows', fun hH hclean => ?_⟩
  have hbefore : ((x.run c).run s).2.Clean := hgrows'.clean hclean
  have hresult : P ((x.run c).run s).1 := (hP s _ _ rfl hbefore).2
  show (((f' ((x'.run c').run s).1).run c').run ((x'.run c').run s).2) = _
  rw [hsame hH hbefore]
  exact hsame' ⟨hH, hresult⟩ hclean

theorem follows_bind {x x' : Lowering α} {f f' : α → Lowering β} (hx : Follows H c c' x x')
    (hf : ∀ a, Follows H c c' (f a) (f' a)) : Follows H c c' (x >>= f) (x' >>= f') := by
  intro s
  obtain ⟨hgrows, hsame⟩ := hx s
  obtain ⟨hgrows', hsame'⟩ := hf ((x.run c).run s).1 ((x.run c).run s).2
  refine ⟨hgrows.trans hgrows', fun hH hclean => ?_⟩
  show (((f' ((x'.run c').run s).1).run c').run ((x'.run c').run s).2) = _
  rw [hsame hH (hgrows'.clean hclean)]
  exact hsame' hH hclean

theorem follows_map {x x' : Lowering α} (f : α → β) (hx : Follows H c c' x x') :
    Follows H c c' (f <$> x) (f <$> x') :=
  follows_bind hx fun a => follows_pure (f a)

theorem follows_read {f f' : LoweringContext → Lowering α} (h : Follows H c c' (f c) (f' c')) :
    Follows H c c' (read >>= f) (read >>= f') :=
  fun s => h s

theorem follows_get {f f' : LoweringState → Lowering α} (h : ∀ s, Follows H c c' (f s) (f' s)) :
    Follows H c c' (get >>= f) (get >>= f') :=
  fun s => h s s

theorem follows_modify {f : LoweringState → LoweringState}
    (hf : ∀ s, (f s).diagnostics = s.diagnostics) :
    Follows H c c' (modify f) (modify f) :=
  fun s => ⟨LoweringState.grows_of_eq (hf s), fun _ _ => rfl⟩

theorem grows_report (code : Code) (span : Span) (message : String) (s : LoweringState) :
    s.Grows c.file (((report code span message).run c).run s).2 := by
  refine ⟨fun d hd => Array.mem_push_of_mem _ hd, fun d hd => ?_⟩
  rcases Array.mem_push.1 hd with hd | rfl
  · exact .inl hd
  · exact .inr (c.sources.isOf_diagnostic code c.file span message)

/-- Nothing is to be shown behind an error. -/
theorem follows_error_pure {code : Code} (hcode : code.severity = .error) (span : Span)
    (message : String) {a : α} {x' : Lowering α} :
    Follows H c c' (report code span message >>= fun _ => pure a) x' := by
  refine fun s => ⟨grows_report code span message s, fun _ hclean => ?_⟩
  exact (ensures_error hcode span message s _ _ rfl hclean).2.elim

theorem follows_forM {f : α → Lowering Unit} (h : ∀ a, Follows H c c' (f a) (f a))
    (as : List α) : Follows H c c' (as.forM f) (as.forM f) := by
  induction as with
  | nil => exact follows_pure ()
  | cons a as ih => exact follows_bind (h a) fun _ => ih

theorem follows_mapM {f : α → Lowering β} (h : ∀ a, Follows H c c' (f a) (f a)) (as : List α) :
    Follows H c c' (as.mapM f) (as.mapM f) := by
  induction as with
  | nil =>
    rw [List.mapM_nil]
    exact follows_pure []
  | cons a as ih =>
    rw [List.mapM_cons]
    exact follows_bind (h a) fun b => follows_bind ih fun bs => follows_pure (b :: bs)

variable {sources : Sources} {table : SymbolTable} (hw : H → Widens c sources table)

/-! ## Scopes -/

theorem follows_lookup (name : String) : Follows H c c' (lookup name) (lookup name) :=
  follows_get fun s => follows_pure (s.lookup name)

theorem follows_markUsed (slot : Nat) : Follows H c c' (markUsed slot) (markUsed slot) :=
  follows_modify fun _ => rfl

include hw

theorem follows_report (code : Code) (span : Span) (message : String) :
    Follows H c (c.widen sources table) (report code span message) (report code span message) := by
  refine fun s => ⟨grows_report code span message s, fun hH _ => ?_⟩
  show ((), { s with
    diagnostics := s.diagnostics.push (sources.diagnostic code c.file span message) }) = _
  rw [(hw hH).diagnostic]
  rfl

theorem follows_lineOf (span : Span) :
    Follows H c (c.widen sources table) (lineOf span) (lineOf span) :=
  follows_read (follows_congr (fun h => congrArg pure ((hw h).line span.start)) (follows_pure _))

theorem follows_reportUnused (slot : Nat) :
    Follows H c (c.widen sources table) (reportUnused slot) (reportUnused slot) := by
  refine follows_get fun s => ?_
  split
  · split
    · exact follows_report hw _ _ _
    · exact follows_pure ()
  · exact follows_pure ()

theorem follows_popScope : Follows H c (c.widen sources table) popScope popScope := by
  refine follows_get fun s => ?_
  split
  · exact follows_pure ()
  · next scope rest _ =>
    exact follows_bind (follows_modify fun _ => rfl) fun _ =>
      follows_forM (follows_reportUnused hw) scope

theorem follows_inScope {body : Lowering α} (h : Follows H c (c.widen sources table) body body) :
    Follows H c (c.widen sources table) (inScope body) (inScope body) := by
  refine follows_bind (follows_modify fun _ => rfl) fun _ => follows_bind h fun a => ?_
  exact follows_bind (follows_popScope hw) fun _ => follows_pure a

theorem follows_declare (name : Ident) (warnUnused : Bool) :
    Follows H c (c.widen sources table) (declare name warnUnused) (declare name warnUnused) := by
  refine follows_bind (follows_lookup name.name) fun slot => ?_
  split
  · refine follows_bind (follows_report hw _ _ _) fun _ => follows_get fun s => ?_
    exact follows_bind (follows_modify fun _ => rfl) fun _ => follows_pure _
  · refine follows_get fun s => ?_
    exact follows_bind (follows_modify fun _ => rfl) fun _ => follows_pure _

/-! ## Names -/

theorem follows_resolve (name : String) (span : Span) :
    Follows H c (c.widen sources table) (resolve name span) (resolve name span) := by
  refine follows_read (follows_bind (follows_lookup name) fun slot => ?_)
  cases slot with
  | some slot => exact follows_pure _
  | none =>
    -- no variable: a member of the type or of one of its bases, or else a type
    dsimp only [LoweringContext.widen]
    refine follows_congr (fun h => by rw [(hw h).member? name]) ?_
    split
    · split
      · exact follows_pure _
      · by_cases hstatic : c.isStatic
        · rw [if_pos hstatic]
          exact follows_error_pure rfl _ _
        · rw [if_neg hstatic]
          exact follows_congr (fun _ => if_neg hstatic) (follows_pure _)
    · exact follows_error_pure rfl _ _
    · cases hfind : c.table.find? name with
      | none => exact follows_error_pure rfl _ _
      | some t =>
        refine follows_congr (fun h => by rw [(hw h).table.find?_eq_some hfind]) ?_
        exact follows_pure _

theorem follows_isFree (name : String) :
    Follows H c (c.widen sources table) (isFree name) (isFree name) := by
  refine follows_read (follows_bind (follows_lookup name) fun slot => ?_)
  dsimp only [LoweringContext.widen]
  refine follows_congr (fun h => by rw [(hw h).member? name]) ?_
  exact follows_pure _

theorem follows_receiver {e : Expr} {value : Lowering Image.Expr}
    (h : Follows H c (c.widen sources table) value value) :
    Follows H c (c.widen sources table) (receiver e value) (receiver e value) := by
  have hvalue : Follows H c (c.widen sources table) (do return Receiver.value (← value))
      (do return Receiver.value (← value)) :=
    follows_bind h fun v => follows_pure (Receiver.value v)
  unfold receiver
  split
  · next span name =>
    refine follows_bind (follows_isFree hw name) fun free => ?_
    cases free with
    | false => exact hvalue
    | true =>
      refine follows_read ?_
      dsimp only [LoweringContext.widen]
      cases hfind : c.table.find? name with
      | none => exact follows_error_pure rfl _ _
      | some t =>
        refine follows_congr (fun h => by rw [(hw h).table.find?_eq_some hfind]) ?_
        exact follows_pure _
  · exact hvalue

/-! ## Calls -/

theorem follows_calledType (target : Expr) :
    Follows H c (c.widen sources table) (calledType target) (calledType target) := by
  unfold calledType
  split
  · refine follows_bind (follows_isFree hw _) fun free => ?_
    cases free <;> exact follows_pure _
  · exact follows_read (follows_pure _)
  · exact follows_pure _

theorem follows_recordInvocation (typeName : Option String) (method : String) (args : List Expr)
    (span : Span) : Follows H c (c.widen sources table)
      (recordInvocation typeName method args span)
      (recordInvocation typeName method args span) := by
  refine follows_read (follows_bind (follows_lineOf hw span) fun line => ?_)
  exact follows_modify fun _ => rfl

theorem follows_checkArity (m : MethodSymbol) (count : Nat) (span : Span) :
    Follows H c (c.widen sources table) (checkArity m count span) (checkArity m count span) := by
  unfold checkArity
  split
  · exact follows_pure ()
  · exact follows_report hw _ _ _

section

variable {t : TypeSymbol} (ht : H → t ∈ c.table.types)

include ht

theorem follows_staticRead (name : Ident) :
    Follows H c (c.widen sources table) (staticRead t name) (staticRead t name) := by
  refine follows_read ?_
  dsimp only [LoweringContext.widen]
  refine follows_congr
    (fun h => by rw [(hw h).table.member?_eq (List.mem_map_of_mem (ht h)) name.name]) ?_
  split
  · split
    · exact follows_pure _
    · exact follows_error_pure rfl _ _
  · split <;> exact follows_error_pure rfl _ _
  · exact follows_error_pure rfl _ _

theorem follows_staticCall (name : Ident) (args : List Image.Expr) :
    Follows H c (c.widen sources table) (staticCall t name args) (staticCall t name args) := by
  refine follows_read ?_
  dsimp only [LoweringContext.widen]
  refine follows_congr
    (fun h => by rw [(hw h).table.method?_eq (List.mem_map_of_mem (ht h)) name.name]) ?_
  split
  · split
    · exact follows_bind (follows_checkArity hw _ _ _) fun _ => follows_pure _
    · exact follows_error_pure rfl _ _
  · exact follows_error_pure rfl _ _

end

theorem follows_ownCall (name : String) (span : Span) (args : List Image.Expr) :
    Follows H c (c.widen sources table) (ownCall name span args) (ownCall name span args) := by
  refine follows_read (follows_bind (follows_lookup name) fun slot => ?_)
  split
  · exact follows_error_pure rfl _ _
  dsimp only [LoweringContext.widen]
  refine follows_congr (fun h => by rw [(hw h).method? name]) ?_
  split
  · exact follows_error_pure rfl _ _
  · refine follows_bind (follows_checkArity hw _ _ _) fun _ => ?_
    split
    · exact follows_pure _
    · by_cases hstatic : c.isStatic
      · rw [if_pos hstatic]
        exact follows_error_pure rfl _ _
      · rw [if_neg hstatic]
        exact follows_congr (fun _ => if_neg hstatic) (follows_pure _)

theorem follows_newObject (type : Ident) (args : List Image.Expr) :
    Follows H c (c.widen sources table) (newObject type args) (newObject type args) := by
  refine follows_read ?_
  dsimp only [LoweringContext.widen]
  cases hfind : c.table.find? type.name with
  | none => exact follows_error_pure rfl _ _
  | some t =>
    have hname : t.name ∈ c.table.types.map (·.name) :=
      List.mem_map_of_mem (SymbolTable.mem_of_find? hfind).1
    refine follows_congr (fun h => by rw [(hw h).table.find?_eq_some hfind]) ?_
    dsimp only
    refine follows_congr (fun h => by rw [(hw h).table.constructor?_eq hname]) ?_
    -- a count that does not fit ends both runs, so nothing is to be shown behind it
    have hchecked (fits : Bool) (message : String) :
        Follows H c (c.widen sources table) (do
          if !fits then report .argumentCount type.span message
          return Image.Expr.new t.ref args) (do
          if !fits then report .argumentCount type.span message
          return Image.Expr.new t.ref args) := by
      cases fits
      · exact follows_error_pure rfl _ _
      · exact follows_pure _
    split
    · exact follows_error_pure rfl _ _
    · exact hchecked _ _

/-! ## Expressions -/

set_option linter.unusedSectionVars false in
mutual

theorem follows_expr :
    ∀ e : Expr, Follows H c (c.widen sources table) (expr e) (expr e)
  | .lit _ value => by
    rw [expr]
    exact follows_pure _
  | .name span name => by
    rw [expr]
    refine follows_bind (follows_resolve hw name span) fun r => ?_
    rcases r with _ | r
    · exact follows_pure _
    · cases r with
      | slot slot => exact follows_bind (follows_markUsed slot) fun _ => follows_pure _
      | staticField owner name => exact follows_pure _
      | instanceField name => exact follows_pure _
      | type t => exact follows_pure _
  | .self span => by
    rw [expr]
    refine follows_read ?_
    by_cases hstatic : c.isStatic
    · rw [if_pos hstatic]
      exact follows_error_pure rfl _ _
    · rw [if_neg hstatic]
      exact follows_congr (fun _ => if_neg hstatic) (follows_pure _)
  | .list _ items => by
    rw [expr]
    exact follows_bind (follows_exprs items) fun es => follows_pure _
  | .new _ type args => by
    rw [expr]
    exact follows_bind (follows_exprs args) fun es => follows_newObject hw type es
  | .member _ target name => by
    rw [expr]
    -- a type that is found is one of the table only where there is no error
    refine follows_bind_of (follows_receiver hw (follows_expr target))
      (ensures_receiver (ensures_expr target)) fun r => ?_
    cases r with
    | type t => exact follows_staticRead (fun h => hw h.1) (fun h => h.2) name
    | value target => exact follows_pure _
    | unresolved => exact follows_pure _
  | .call span (.member _ target name) args => by
    rw [expr]
    refine follows_bind (follows_calledType hw target) fun called => ?_
    refine follows_bind (follows_recordInvocation hw called name.name args span) fun _ => ?_
    refine follows_bind_of (follows_receiver hw (follows_expr target))
      (ensures_receiver (ensures_expr target)) fun r => ?_
    refine follows_bind ((follows_exprs args).imp And.left) fun es => ?_
    cases r with
    | type t => exact follows_staticCall (fun h => hw h.1) (fun h => h.2) name es
    | value target => exact follows_pure _
    | unresolved => exact follows_pure _
  | .call span (.name nameSpan name) args => by
    rw [expr]
    refine follows_read ?_
    refine follows_bind (follows_recordInvocation hw _ name args span) fun _ => ?_
    exact follows_bind (follows_exprs args) fun es => follows_ownCall hw name nameSpan es
  | .call _ (.lit _ _) args | .call _ (.self _) args | .call _ (.list _ _) args
  | .call _ (.new _ _ _) args | .call _ (.call _ _ _) args | .call _ (.index _ _ _) args
  | .call _ (.unary _ _ _) args | .call _ (.binary _ _ _ _) args | .call _ (.await _ _) args => by
    rw [expr]
    -- nothing else can be called
    · refine follows_bind (follows_expr _) fun _ => follows_bind (follows_exprs args) fun _ => ?_
      exact follows_error_pure rfl _ _
    all_goals nofun
  | .index _ target i => by
    rw [expr]
    exact follows_bind (follows_expr target) fun t => follows_bind (follows_expr i) fun i =>
      follows_pure _
  | .unary _ op operand => by
    rw [expr]
    exact follows_bind (follows_expr operand) fun e => follows_pure _
  | .binary _ op lhs rhs => by
    rw [expr]
    exact follows_bind (follows_expr lhs) fun a => follows_bind (follows_expr rhs) fun b =>
      follows_pure _
  | .await _ operand => by
    rw [expr]
    exact follows_bind (follows_expr operand) fun e => follows_pure _

theorem follows_exprs :
    ∀ es : List Expr, Follows H c (c.widen sources table) (exprs es) (exprs es)
  | [] => by
    rw [exprs]
    exact follows_pure []
  | e :: es => by
    rw [exprs]
    exact follows_bind (follows_expr e) fun e' => follows_bind (follows_exprs es) fun es' =>
      follows_pure (e' :: es')

end

theorem follows_expr? (e : Option Expr) :
    Follows H c (c.widen sources table) (expr? e) (expr? e) := by
  cases e with
  | none => exact follows_pure none
  | some e => exact follows_bind (follows_expr hw e) fun e' => follows_pure (some e')

theorem follows_place (target : Expr) :
    Follows H c (c.widen sources table) (place target) (place target) := by
  unfold place
  split
  · next span name =>
    refine follows_bind (follows_resolve hw name span) fun r => ?_
    rcases r with _ | r
    · exact follows_pure none
    · cases r with
      | slot slot => exact follows_pure _
      | staticField owner name => exact follows_pure _
      | instanceField name => exact follows_pure _
      | type t => exact follows_error_pure rfl _ _
  · next span inner name =>
    -- The type of the receiver is one of the smaller table, which is why its members are the same.
    refine follows_bind_of (follows_receiver hw (follows_expr hw inner))
      (ensures_receiver (ensures_expr inner)) fun r => ?_
    cases r with
    | type t =>
      refine follows_read ?_
      dsimp only [LoweringContext.widen]
      refine follows_congr (fun h => by
        rw [(hw h.1).table.member?_eq (List.mem_map_of_mem h.2) name.name]) ?_
      split
      · split
        · exact follows_pure _
        · exact follows_error_pure rfl _ _
      · exact follows_error_pure rfl _ _
      · exact follows_error_pure rfl _ _
    | value inner => exact follows_pure _
    | unresolved => exact follows_pure none
  · next span target i =>
    exact follows_bind (follows_expr hw target) fun t => follows_bind (follows_expr hw i) fun i =>
      follows_pure _
  · exact follows_error_pure rfl _ _

/-! ## Statements -/

theorem follows_enter (r : Reach) (span : Span) :
    Follows H c (c.widen sources table) (r.enter span) (r.enter span) := by
  unfold Reach.enter
  split
  · exact follows_bind (follows_report hw _ _ _) fun _ => follows_pure _
  · exact follows_pure r

omit hw in
theorem follows_inLoop {body body' : Lowering α} (h : Follows H c c' body body') :
    Follows H c c' (inLoop body) (inLoop body') := by
  refine follows_bind (follows_modify fun _ => rfl) fun _ => follows_bind h fun a => ?_
  exact follows_bind (follows_modify fun _ => rfl) fun _ => follows_pure a

theorem follows_checkLoop (span : Span) (word : String) :
    Follows H c (c.widen sources table) (checkLoop span word) (checkLoop span word) := by
  refine follows_get fun s => ?_
  split
  · exact follows_report hw _ _ _
  · exact follows_pure ()

mutual

theorem follows_stmt : ∀ s : Stmt, Follows H c (c.widen sources table) (stmt s) (stmt s)
  | .declare span name init => by
    rw [stmt]
    refine follows_bind (follows_lineOf hw span) fun line => ?_
    refine follows_bind (follows_expr? hw init) fun e => ?_
    exact follows_bind (follows_declare hw name true) fun _ => follows_pure _
  -- Statement by statement, part by part: only names and types can tell the tables apart, and these
  -- have been dealt with.
  | .assign span target value => by
    rw [stmt]
    refine follows_bind (follows_lineOf hw span) fun line => ?_
    refine follows_bind (follows_place hw target) fun p => ?_
    refine follows_bind (follows_expr hw value) fun e => ?_
    cases p <;> exact follows_pure _
  | .expr span e => by
    rw [stmt]
    refine follows_bind (follows_lineOf hw span) fun line => ?_
    exact follows_bind (follows_expr hw e) fun _ => follows_pure _
  | .cond branch => by
    rw [stmt]
    exact follows_conditional branch
  | .whileLoop span cond body => by
    rw [stmt]
    refine follows_bind (follows_lineOf hw span) fun line => ?_
    refine follows_bind (follows_expr hw cond) fun e => ?_
    exact follows_bind (follows_inLoop (follows_block body)) fun b => follows_pure _
  | .forLoop span item iterable body => by
    rw [stmt]
    refine follows_bind (follows_lineOf hw span) fun line => ?_
    refine follows_bind (follows_expr hw iterable) fun e => follows_inScope hw ?_
    refine follows_bind (follows_declare hw item false) fun slot => ?_
    exact follows_bind (follows_inLoop (follows_block body)) fun b => follows_pure _
  | .ret span value => by
    rw [stmt]
    refine follows_bind (follows_lineOf hw span) fun line => ?_
    exact follows_bind (follows_expr? hw value) fun _ => follows_pure _
  | .throw span value => by
    rw [stmt]
    refine follows_bind (follows_lineOf hw span) fun line => ?_
    exact follows_bind (follows_expr hw value) fun _ => follows_pure _
  | .tryCatch span body binding handler => by
    rw [stmt]
    refine follows_bind (follows_lineOf hw span) fun line => ?_
    refine follows_bind (follows_block body) fun b => follows_inScope hw ?_
    cases binding with
    | none =>
      refine follows_bind (follows_pure none) fun slot => ?_
      exact follows_bind (follows_block handler) fun _ => follows_pure _
    | some name =>
      refine follows_bind (follows_map some (follows_declare hw name false)) fun slot => ?_
      exact follows_bind (follows_block handler) fun _ => follows_pure _
  | .breakLoop span => by
    rw [stmt]
    refine follows_bind (follows_lineOf hw span) fun line => ?_
    exact follows_bind (follows_checkLoop hw span _) fun _ => follows_pure _
  | .continueLoop span => by
    rw [stmt]
    refine follows_bind (follows_lineOf hw span) fun line => ?_
    exact follows_bind (follows_checkLoop hw span _) fun _ => follows_pure _
  | .nested b => by
    rw [stmt]
    refine follows_bind (follows_lineOf hw _) fun line => ?_
    exact follows_bind (follows_block b) fun _ => follows_pure _

theorem follows_block : ∀ b : Block, Follows H c (c.widen sources table) (block b) (block b)
  | .mk _ ss => by
    rw [block]
    exact follows_inScope hw (follows_stmts .reachable ss)

theorem follows_conditional :
    ∀ b : Conditional, Follows H c (c.widen sources table) (conditional b) (conditional b)
  | .mk span cond thenBlock otherwise => by
    rw [conditional]
    refine follows_bind (follows_lineOf hw span) fun line => ?_
    refine follows_bind (follows_expr hw cond) fun e => ?_
    refine follows_bind (follows_block thenBlock) fun b => ?_
    match otherwise with
    | .none => exact follows_pure _
    | .block other => exact follows_bind (follows_block other) fun b' => follows_pure _
    | .chain next => exact follows_bind (follows_conditional next) fun s => follows_pure _

theorem follows_stmts : ∀ (r : Reach) (ss : List Stmt),
    Follows H c (c.widen sources table) (stmts r ss) (stmts r ss)
  | _, [] => by
    rw [stmts]
    exact follows_pure []
  | r, s :: ss => by
    rw [stmts]
    refine follows_bind (follows_enter hw r s.span) fun r' => ?_
    refine follows_bind (follows_stmt s) fun s' => ?_
    exact follows_bind (follows_stmts _ ss) fun ss' => follows_pure (s' :: ss')

end

/-! ## Members -/

theorem follows_method (m : MethodDecl) :
    Follows H c (c.widen sources table) (method m) (method m) := by
  have hparam (p : Param) : Follows H c (c.widen sources table) (param p) (param p) :=
    follows_bind (follows_declare hw p.name false) fun _ => follows_pure _
  have hbody : Follows H c (c.widen sources table) (body? m.body) (body? m.body) := by
    cases m.body with
    | none => exact follows_pure none
    | some b => exact follows_bind (follows_block hw b) fun ss => follows_pure (some ss)
  refine follows_bind (follows_inScope hw (follows_bind (follows_mapM hparam m.params) fun ps =>
    follows_bind hbody fun b => follows_pure (ps, b))) fun r => ?_
  refine follows_get fun s => ?_
  exact follows_bind (follows_lineOf hw m.name.span) fun line => follows_pure _

theorem follows_field (f : FieldDecl) :
    Follows H c (c.widen sources table) (field f) (field f) := by
  refine follows_bind (follows_inScope hw (follows_expr? hw f.init)) fun e => ?_
  exact follows_bind (follows_lineOf hw f.span) fun line => follows_pure _

end Lowering

end GenLang
