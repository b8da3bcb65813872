import GenLang.Proofs.Linking.Lowering
import GenLang.Proofs.Bodies.Calls

/-!
# What lowering does to its state

Whatever is lowered, the state goes through a few kinds of steps, and what is done on the way is a
footprint: calls that are recorded, locals that are read and locals that `let` introduces. What is
wanted of states is proved by induction on these steps, without a look at the code that takes them.
-/

namespace GenLang

open Text

/-! ## Locals in texts and in code -/

mutual

/-- The names that `let` introduces in a statement, in the order of the text. -/
def Stmt.lets : Stmt → List Ident
  | .declare _ i _ => [i]
  | .assign _ _ _ | .expr _ _ | .ret _ _ | .throw _ _ | .breakLoop _ | .continueLoop _ => []
  | .cond c => c.lets
  | .whileLoop _ _ b | .forLoop _ _ _ b => b.lets
  | .tryCatch _ b _ h => b.lets ++ h.lets
  | .nested b => b.lets

def Block.lets : Block → List Ident
  | .mk _ ss => Stmt.letsAll ss

def Conditional.lets : Conditional → List Ident
  | .mk _ _ b a => b.lets ++ a.lets

def Alternative.lets : Alternative → List Ident
  | .none => []
  | .block b => b.lets
  | .chain c => c.lets

def Stmt.letsAll : List Stmt → List Ident
  | [] => []
  | s :: ss => s.lets ++ Stmt.letsAll ss

end

namespace Image

mutual

/-- The slots that an expression reads. -/
def Expr.reads : Expr → List Nat
  | const _ | self | type _ | staticField _ _ => []
  | slot n => [n]
  | list es | new _ es | staticCall _ _ es => Expr.readsAll es
  | field e _ | unary _ e | await e => e.reads
  | call e _ es => e.reads ++ Expr.readsAll es
  | index a b | binary _ a b => a.reads ++ b.reads

def Expr.readsAll : List Expr → List Nat
  | [] => []
  | e :: es => e.reads ++ Expr.readsAll es

end

/-- The slots that are read on the way to a place; the slot that a place is, is not read. -/
def Place.reads : Place → List Nat
  | slot _ | staticField _ _ => []
  | field e _ => e.reads
  | index a b => a.reads ++ b.reads

mutual

/-- The slots that a statement and all that is nested in it read. -/
def Stmt.reads : Stmt → List Nat
  | declare _ _ e | ret _ e => e.elim [] Expr.reads
  | assign _ p e => p.reads ++ e.reads
  | expr _ e | throw _ e => e.reads
  | cond _ e a b => e.reads ++ (Stmt.readsAll a ++ Stmt.readsAll b)
  | whileLoop _ e b | forLoop _ _ e b => e.reads ++ Stmt.readsAll b
  | tryCatch _ b _ h => Stmt.readsAll b ++ Stmt.readsAll h
  | breakLoop _ | continueLoop _ => []
  | block _ b => Stmt.readsAll b

def Stmt.readsAll : List Stmt → List Nat
  | [] => []
  | s :: ss => s.reads ++ Stmt.readsAll ss

end

mutual

/-- The slots that declarations of locals introduce, in the order of the code. -/
def Stmt.lets : Stmt → List Nat
  | declare _ slot _ => [slot]
  | assign _ _ _ | expr _ _ | ret _ _ | throw _ _ | breakLoop _ | continueLoop _ => []
  | cond _ _ a b => Stmt.letsAll a ++ Stmt.letsAll b
  | whileLoop _ _ b | forLoop _ _ _ b | block _ b => Stmt.letsAll b
  | tryCatch _ b _ h => Stmt.letsAll b ++ Stmt.letsAll h

def Stmt.letsAll : List Stmt → List Nat
  | [] => []
  | s :: ss => s.lets ++ Stmt.letsAll ss

end

end Image

/-! ## Calls and their records -/

/-- The types that a call may be recorded as made on: the enclosing type for a call of a bare name
or on `self`, the name in front of the dot if it stands for a type, and otherwise none. -/
def Call.typeNames (owner : String) (call : Call) : List (Option String) :=
  match call.receiver with
  | none | some (.self _) => [some owner]
  | some (.name _ n) => [none, some n]
  | some _ => [none]

/-- An invocation tells of a call in a member of a type. -/
structure Call.RecordedAs (sources : Sources) (file owner caller : String) (call : Call)
    (i : Invocation) : Prop where
  typeName : i.typeName ∈ call.typeNames owner
  method : i.method = call.method
  arguments : i.arguments = call.args.map Lowering.literal?
  line : i.line = sources.line file call.span.start
  caller : i.caller = caller
  file : i.file = file

/-! ## Footprints -/

/-- What is done in a part of lowering. -/
@[ext] structure Footprint where
  calls : List Call := []
  /-- Slots of locals that are read. -/
  reads : List Nat := []
  /-- Names that `let` introduces, and their slots. -/
  lets : List (Ident × Nat) := []
  /-- Whether an error is reported. -/
  failed : Bool := false

namespace Footprint

instance : Append Footprint :=
  ⟨fun F G => ⟨F.calls ++ G.calls, F.reads ++ G.reads, F.lets ++ G.lets, F.failed || G.failed⟩⟩

variable (F G : Footprint)

@[simp] theorem calls_append : (F ++ G).calls = F.calls ++ G.calls := rfl

@[simp] theorem reads_append : (F ++ G).reads = F.reads ++ G.reads := rfl

@[simp] theorem lets_append : (F ++ G).lets = F.lets ++ G.lets := rfl

@[simp] theorem failed_append : (F ++ G).failed = (F.failed || G.failed) := rfl

@[simp] theorem empty_append : ({} : Footprint) ++ F = F := rfl

@[simp] theorem append_empty : F ++ ({} : Footprint) = F := by
  apply Footprint.ext <;> simp

/-- A footprint as it is to be: of the calls and names of a text, and unless there is an error, of
the slots of the code that the text becomes. -/
structure Traces (calls : List Call) (names : List Ident) (slots reads : List Nat)
    (F : Footprint) : Prop where
  calls : F.calls = calls
  names : F.lets.map Prod.fst = names
  slots : F.lets.map Prod.snd = slots
  reads : F.failed = false → F.reads = reads

/-- Nothing but errors. -/
abbrev Silent (F : Footprint) : Prop :=
  F.Traces [] [] [] []

theorem append_assoc (H : Footprint) : F ++ G ++ H = F ++ (G ++ H) := by
  apply Footprint.ext <;> simp [Bool.or_assoc]

variable {F G} {calls calls' : List Call} {names names' : List Ident}
  {slots slots' reads reads' : List Nat}

theorem traces_empty : ({} : Footprint).Silent :=
  ⟨rfl, rfl, rfl, fun _ => rfl⟩

theorem Traces.append (h : F.Traces calls names slots reads)
    (h' : G.Traces calls' names' slots' reads') :
    (F ++ G).Traces (calls ++ calls') (names ++ names') (slots ++ slots') (reads ++ reads') := by
  refine ⟨by rw [calls_append, h.calls, h'.calls], by rw [lets_append, List.map_append, h.names,
    h'.names], by rw [lets_append, List.map_append, h.slots, h'.slots], fun hok => ?_⟩
  rw [failed_append, Bool.or_eq_false_iff] at hok
  rw [reads_append, h.reads hok.1, h'.reads hok.2]

theorem Silent.append (h : F.Silent) (h' : G.Traces calls names slots reads) :
    (F ++ G).Traces calls names slots reads :=
  Traces.append h h'

theorem Traces.silent (h : F.Traces calls names slots reads) (h' : G.Silent) :
    (F ++ G).Traces calls names slots reads := by
  simpa using h.append h'

/-- What is read matters only where there is no error. -/
theorem Traces.of_reads (h : F.Traces calls names slots reads)
    (hreads : F.failed = false → reads = reads') : F.Traces calls names slots reads' :=
  ⟨h.calls, h.names, h.slots, fun hok => (h.reads hok).trans (hreads hok)⟩

end Footprint

/-! ## Steps -/

theorem Sources.code_diagnostic (sources : Sources) (code : Code) (file : String) (span : Span)
    (message : String) : (sources.diagnostic code file span message).code = code.text := by
  unfold Sources.diagnostic
  cases sources.text? file <;> rfl

/-- The warning about a local of a file that is never read. -/
def Sources.unused (sources : Sources) (file : String) (i : Ident) : Diagnostic :=
  sources.diagnostic .unusedLocal file i.span
    ("The variable '" ++ i.name ++ "' is declared but never used")

/-- Warnings about locals with their slots. -/
def LoweringContext.unusedAll (c : LoweringContext) (ps : List (Ident × Nat)) : List Diagnostic :=
  ps.map fun p => c.sources.unused c.file p.1

/-- A local that `let` introduced, with its slot, if it was not read so far. -/
def LoweringState.pending? (s : LoweringState) (slot : Nat) : Option (Ident × Nat) :=
  match s.locals[slot]? with
  | some l => if l.warnUnused && !l.used then some (⟨l.name, l.span⟩, slot) else none
  | none => none

/-- With more diagnostics. -/
def LoweringState.note (s : LoweringState) (ds : List Diagnostic) : LoweringState :=
  { s with diagnostics := s.diagnostics ++ ds.toArray }

@[simp] theorem LoweringState.note_nil (s : LoweringState) : s.note [] = s := by
  simp [note]

@[simp] theorem LoweringState.note_note (s : LoweringState) (ds es : List Diagnostic) :
    (s.note ds).note es = s.note (ds ++ es) := by
  simp [note]

@[simp] theorem LoweringState.pending?_note (s : LoweringState) (ds : List Diagnostic) :
    (s.note ds).pending? = s.pending? :=
  rfl

/-- The state behind a scope: its locals that were not read are warned of. -/
def LoweringState.close (s : LoweringState) (c : LoweringContext) (scope : List Nat)
    (rest : List (List Nat)) : LoweringState :=
  { s with scopes := rest }.note (c.unusedAll (scope.filterMap s.pending?))

/-- The state with one more local in the innermost scope. -/
def LoweringState.extend (s : LoweringState) (name : Ident) (warnUnused : Bool) : LoweringState :=
  { s with
    locals := s.locals.push ⟨name.name, name.span, false, warnUnused⟩
    scopes :=
      match s.scopes with
      | scope :: rest => (scope ++ [s.locals.size]) :: rest
      | [] => [] }

namespace Lowering

/-- What is reported of bodies, but for unused locals. -/
def codes : List Code :=
  [.unknownName, .unknownMember, .argumentCount, .cannotInstantiate, .selfInStaticContext,
   .invalidAssignmentTarget, .jumpOutsideLoop, .instanceMemberInStaticContext, .duplicateLocal,
   .unreachableCode]

end Lowering

/-- Lowering goes from one state to another and leaves a footprint. -/
inductive Evolves (c : LoweringContext) : LoweringState → Footprint → LoweringState → Prop
  | refl (s) : Evolves c s {} s
  | trans {s t u F G} : Evolves c s F t → Evolves c t G u → Evolves c s (F ++ G) u
  | report (s) {code} (hcode : code ∈ Lowering.codes) (span : Span) (message : String) :
    Evolves c s { failed := code.severity == .error }
      { s with
        diagnostics := s.diagnostics.push (c.sources.diagnostic code c.file span message) }
  | record (s) {call : Call} {i : Invocation}
    (hrecorded : call.RecordedAs c.sources c.file c.owner.name c.caller i) :
    Evolves c s { calls := [call] } { s with invocations := s.invocations.push i }
  | read (s) {slot : Nat} (hslot : slot ∈ s.scopes.flatten) :
    Evolves c s { reads := [slot] }
      { s with locals := s.locals.modify slot fun l => { l with used := true } }
  | declare (s) (hscopes : s.scopes ≠ []) (name : Ident) (warnUnused : Bool) :
    Evolves c s { lets := if warnUnused then [(name, s.locals.size)] else [] }
      (s.extend name warnUnused)
  | scope {s t F scope rest} (hbody : Evolves c { s with scopes := [] :: s.scopes } F t)
    (hscopes : t.scopes = scope :: rest) : Evolves c s F (t.close c scope rest)
  | loop (s) (depth : Nat) : Evolves c s {} { s with loopDepth := depth }

namespace Evolves

variable {c : LoweringContext} {s s' : LoweringState} {F : Footprint}

/-- Only the innermost scope changes. -/
theorem scopes (h : Evolves c s F s') :
    s'.scopes.tail = s.scopes.tail ∧ (s.scopes ≠ [] → s'.scopes ≠ []) := by
  induction h with
  | refl => exact ⟨rfl, id⟩
  | trans _ _ ih ih' => exact ⟨ih'.1.trans ih.1, fun h => ih'.2 (ih.2 h)⟩
  | report | record | read | loop => exact ⟨rfl, id⟩
  | declare s hscopes name warnUnused =>
    unfold LoweringState.extend
    cases hs : s.scopes with
    | nil => exact absurd hs hscopes
    | cons scope rest => exact ⟨rfl, fun _ => List.cons_ne_nil _ _⟩
  | @scope s t F scope rest hbody hscopes ih =>
    -- the scope that was opened is closed again
    have hrest : rest = s.scopes := (congrArg List.tail hscopes).symm.trans ih.1
    subst hrest
    exact ⟨rfl, id⟩

theorem scopes_close {t : LoweringState} {scope : List Nat} {rest : List (List Nat)}
    (h : Evolves c { s with scopes := [] :: s.scopes } F t) (hscopes : t.scopes = scope :: rest) :
    (t.close c scope rest).scopes = s.scopes :=
  (congrArg List.tail hscopes).symm.trans h.scopes.1

/-- Calls are recorded in the order in which they are met, one invocation for each. -/
theorem invocations (h : Evolves c s F s') :
    ∃ new, s'.invocations.toList = s.invocations.toList ++ new ∧
      List.Forall₂ (Call.RecordedAs c.sources c.file c.owner.name c.caller) F.calls new := by
  induction h with
  | refl | report | read | declare | loop => exact ⟨[], (List.append_nil _).symm, .nil⟩
  | trans _ _ ih ih' =>
    obtain ⟨new, hnew, hall⟩ := ih
    obtain ⟨new', hnew', hall'⟩ := ih'
    exact ⟨new ++ new', by rw [hnew', hnew, List.append_assoc], List.rel_append hall hall'⟩
  | record s hrecorded => exact ⟨[_], Array.toList_push, .cons hrecorded .nil⟩
  | scope _ _ ih => exact ih

/-- Diagnostics are only added, and their codes are those of bodies. -/
theorem diagnostics (h : Evolves c s F s') :
    ∃ new, s'.diagnostics.toList = s.diagnostics.toList ++ new ∧
      (∀ d ∈ new, ∃ code ∈ Code.unusedLocal :: Lowering.codes, d.code = code.text) ∧
      (F.failed = true → ∃ d ∈ new, d.isError = true) := by
  induction h with
  | refl | record | read | declare | loop =>
    exact ⟨[], (List.append_nil _).symm, by simp, by simp⟩
  -- failed is true of two footprints together if it is true of one of them
  | trans _ _ ih ih' =>
    obtain ⟨new, hnew, hcodes, herror⟩ := ih
    obtain ⟨new', hnew', hcodes', herror'⟩ := ih'
    refine ⟨new ++ new', by rw [hnew', hnew, List.append_assoc],
      List.forall_mem_append.2 ⟨hcodes, hcodes'⟩, fun hfailed => ?_⟩
    rcases Bool.or_eq_true_iff.1 hfailed with hfailed | hfailed
    · obtain ⟨d, hd, hdiag⟩ := herror hfailed
      exact ⟨d, List.mem_append_left _ hd, hdiag⟩
    · obtain ⟨d, hd, hdiag⟩ := herror' hfailed
      exact ⟨d, List.mem_append_right _ hd, hdiag⟩
  | @report s code hcode span message =>
    refine ⟨[_], Array.toList_push, List.forall_mem_singleton.2 ?_, fun hfailed => ?_⟩
    · exact ⟨code, List.mem_cons_of_mem _ hcode, Sources.code_diagnostic ..⟩
    · exact ⟨_, List.mem_singleton_self _, (Lowering.isError_diagnostic ..).trans hfailed⟩
  -- a scope that ends only adds warnings, so an error is one from within it
  | @scope s t F scope rest _ _ ih =>
    obtain ⟨new, hnew, hcodes, herror⟩ := ih
    refine ⟨new ++ c.unusedAll (scope.filterMap t.pending?), ?_,
      List.forall_mem_append.2 ⟨hcodes, fun d hd => ?_⟩, fun hfailed => ?_⟩
    · rw [LoweringState.close, LoweringState.note, Array.toList_append, hnew, List.append_assoc]
    · obtain ⟨p, -, rfl⟩ := List.mem_map.1 hd
      exact ⟨.unusedLocal, List.mem_cons_self, Sources.code_diagnostic ..⟩
    · obtain ⟨d, hd, hdiag⟩ := herror hfailed
      exact ⟨d, List.mem_append_left _ hd, hdiag⟩

end Evolves

end GenLang
