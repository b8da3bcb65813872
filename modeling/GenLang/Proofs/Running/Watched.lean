import GenLang.Proofs.Running.Order

/-!
# Watched runs

Other rules than those of the interpreter can be followed in a run. A watched run is given a way to
end, and ends that way as soon as the machine is not as it should be where an expression or a
statement is evaluated or the text of a value is asked for: before it begins, when it has come to an
end, with the value that it came to, and when it stops, with what it stops for. What every machine
in good order satisfies can be watched for in vain, so that a watched run is a run like any other.
-/

namespace GenLang

/-- Rules for expressions, statements and the texts of values, over an evaluator for their parts. -/
structure Interpretation where
  eval : Evaluator → Image.Expr → Run Value
  exec : Evaluator → Image.Stmt → Run Flow
  display : Evaluator → Value → Run String

namespace Interpretation

/-- The rules of the interpreter. -/
def plain : Interpretation :=
  ⟨Evaluator.evalExpr, Evaluator.execStmt, Evaluator.displayValue⟩

section

variable (r : Interpretation)

mutual

def evalTo : Nat → Image.Expr → Run Value
  | 0, _ => throw .outOfFuel
  | n + 1, e => r.eval ⟨n, evalTo n, execTo n, displayTo n⟩ e

def execTo : Nat → Image.Stmt → Run Flow
  | 0, _ => throw .outOfFuel
  | n + 1, s => r.exec ⟨n, evalTo n, execTo n, displayTo n⟩ s

def displayTo : Nat → Value → Run String
  | 0, _ => throw .outOfFuel
  | n + 1, v => r.display ⟨n, evalTo n, execTo n, displayTo n⟩ v

end

/-- Evaluation by other rules with an amount of fuel. -/
def ofFuel (n : Nat) : Evaluator :=
  ⟨n, r.evalTo n, r.execTo n, r.displayTo n⟩

end

/-- Rules conform to those of the interpreter. -/
structure Conform (r : Interpretation) (env : Environment) : Prop where
  eval : ∀ {k k' as cs e}, Evaluator.Alike env k k' →
    Served env.hierarchy as (Image.Expr.WellScoped · e) →
    Conforms env as cs (k.evalExpr e) (r.eval k' e) Value.Known
  self : ∀ {k k' as cs}, Evaluator.Alike env k k' →
    Served env.hierarchy as (Image.Expr.WellScoped · .self) →
    Conforms env as cs (k.evalExpr .self) (r.eval k' .self) (Value.IsSelf as)
  exec : ∀ {k k' as cs s}, Evaluator.Alike env k k' →
    Served env.hierarchy as (Image.Stmt.WellScoped · s) → as.length ≤ env.maxCallDepth →
    Conforms env as cs (k.execStmt s) (r.exec k' s) Flow.Known
  display : ∀ {k k' as cs} {v : Value}, Evaluator.Alike env k k' → v.Known cs →
    Conforms env as cs (k.displayValue v) (r.display k' v) Anything

variable {env : Environment}

theorem conform_plain : plain.Conform env where
  eval := fun hk he => Evaluator.conforms_evalExpr hk he
  self := fun _ _ => conforms_getThis
  exec := fun hk hs has => Evaluator.conforms_execStmt hk has hs
  display := fun hk hv => Evaluator.conforms_displayValue hk hv

/-- By induction on the fuel: over evaluators that conform, the rules lead from machines in good
order to machines in good order. -/
theorem Conform.alike {r : Interpretation} (hr : r.Conform env) (n : Nat) :
    Evaluator.Alike env (Evaluator.ofFuel n) (r.ofFuel n) := by
  induction n with
  | zero =>
    exact
      { fuel := rfl
        eval := fun _ => conforms_throw .outOfFuel
        self := fun _ => conforms_throw .outOfFuel
        exec := fun _ _ => conforms_throw .outOfFuel
        display := fun _ => conforms_throw .outOfFuel }
  | succ n ih =>
    exact
      { fuel := rfl
        eval := hr.eval ih
        self := hr.self ih
        exec := hr.exec ih
        display := hr.display ih }

end Interpretation

/-! ## Watching -/

/-- What is watched for. -/
structure Watch where
  /-- How a machine should be before and after an expression is evaluated. -/
  eval : Environment → Image.Expr → Machine → Bool
  /-- How a machine should be before and after a statement runs. -/
  exec : Environment → Machine → Bool
  /-- How a machine should be before and after the text of a value is asked for. -/
  display : Environment → Machine → Bool
  /-- What an expression may come to. -/
  value : Environment → Machine → Value → Bool
  /-- What a run may stop for. -/
  stop : Environment → Machine → Stop → Bool

/-- Ends a run where the machine is not as it should be, at the beginning or at the end, or where
the run comes to what it should not come to or stops for what it should not stop for. -/
def Run.watched {α : Type} (ending : Stop) (fits : Environment → Machine → Bool)
    (comes : Environment → Machine → α → Bool) (stops : Environment → Machine → Stop → Bool)
    (x : Run α) : Run α := fun env m =>
  if fits env m then
    match x env m with
    | .ok a m => if fits env m && comes env m a then .ok a m else .error ending m
    | .error e m => if fits env m && stops env m e then .error e m else .error ending m
  else .error ending m

/-- Rules that are watched. -/
def Watch.over (w : Watch) (ending : Stop) (r : Interpretation) : Interpretation where
  eval k e := Run.watched ending (w.eval · e) w.value w.stop (r.eval k e)
  exec k s := Run.watched ending w.exec (fun _ _ _ => true) w.stop (r.exec k s)
  display k v := Run.watched ending w.display (fun _ _ _ => true) w.stop (r.display k v)

/-- Machines in good order are as they should be, as long as code is evaluated that has its place
there. -/
structure Watch.Accepts (w : Watch) (env : Environment) : Prop where
  eval : ∀ {as e m}, Served env.hierarchy as (Image.Expr.WellScoped · e) →
    Machine.Sound env as m → w.eval env e m
  exec : ∀ {as m}, Machine.Sound env as m → as.length ≤ env.maxCallDepth → w.exec env m
  display : ∀ {as m}, Machine.Sound env as m → w.display env m
  value : ∀ {as m v}, Machine.Sound env as m → v.Known m.heap.classes → w.value env m v
  stop : ∀ {as m e}, Machine.Sound env as m → e.Sound env m.heap.classes → w.stop env m e

variable {α : Type} {env : Environment} {as : List Activation} {cs : List ClassId}
  {Q : List ClassId → α → Prop}

theorem conforms_watched {ending : Stop} {fits : Environment → Machine → Bool}
    {comes : Environment → Machine → α → Bool} {stops : Environment → Machine → Stop → Bool}
    (hfits : ∀ m : Machine, m.Sound env as → fits env m)
    (hcomes : ∀ (m : Machine) a, m.Sound env as → Q m.heap.classes a → comes env m a)
    (hstops : ∀ (m : Machine) e, m.Sound env as → e.Sound env m.heap.classes → stops env m e)
    {x y : Run α} (h : Conforms env as cs x y Q) :
    Conforms env as cs x (Run.watched ending fits comes stops y) Q := by
  intro m hm hcs
  obtain ⟨heq, hends⟩ := h m hm hcs
  -- In good order, the watched computation comes to what it would come to unwatched.
  have hwatched : Run.watched ending fits comes stops y env m = y env m := by
    unfold Run.watched
    rw [if_pos (hfits m hm)]
    cases hy : y env m with
    | ok a m' =>
      rw [hy] at hends
      exact if_pos (Bool.and_eq_true_iff.2 ⟨hfits m' hends.1, hcomes m' a hends.1 hends.2.2⟩)
    | error e m' =>
      rw [hy] at hends
      exact if_pos (Bool.and_eq_true_iff.2 ⟨hfits m' hends.1, hstops m' e hends.1 hends.2.2⟩)
  rw [hwatched]
  exact ⟨heq, hends⟩

/-- Rules that conform do so when they are watched in vain. -/
theorem Watch.Accepts.conform {w : Watch} (hw : w.Accepts env) (ending : Stop)
    {r : Interpretation} (hr : r.Conform env) : (w.over ending r).Conform env where
  eval := fun hk he => conforms_watched (fun _ => hw.eval he) (fun _ _ => hw.value)
    (fun _ _ => hw.stop) (hr.eval hk he)
  self := fun hk he => conforms_watched (fun _ => hw.eval he)
    (fun _ _ hm hv => hw.value hm hv.known) (fun _ _ => hw.stop) (hr.self hk he)
  exec := fun hk hs has => conforms_watched (fun _ hm => hw.exec hm has) (fun _ _ _ _ => rfl)
    (fun _ _ => hw.stop) (hr.exec hk hs has)
  display := fun hk hv => conforms_watched (fun _ => hw.display) (fun _ _ _ _ => rfl)
    (fun _ _ => hw.stop) (hr.display hk hv)

/-! ## The runs asked of an interpreter -/

/-- The states of an interpreter between the runs that are asked of it: at first there is nothing on
its heap, and the arguments of a run lead only to what there is. -/
inductive Machine.Between (env : Environment) : Machine → Prop
  | fresh (console : Console) (patience : Option Nat) (output : GeneratorOutput)
      (hints : List String) : Between env { console, patience, output, hints }
  | newHost {m : Machine} (h : Between env m) (object : HostObject) :
      Between env (m.allocate (·.newHost object)).2
  | callStatic {m : Machine} (h : Between env m) (n : Nat) (c : ClassId) (name : String)
      {args : List Value} (hargs : Value.AllKnown m.heap.classes args) :
      Between env (Run.final ((Evaluator.ofFuel n).callStatic c name args env m))
  | callValue {m : Machine} (h : Between env m) (n : Nat) {target : Value}
      (htarget : target.Known m.heap.classes) (name : String) {args : List Value}
      (hargs : Value.AllKnown m.heap.classes args) :
      Between env (Run.final ((Evaluator.ofFuel n).callValue target name args env m))
  | construct {m : Machine} (h : Between env m) (n : Nat) (c : ClassId) {args : List Value}
      (hargs : Value.AllKnown m.heap.classes args) :
      Between env (Run.final ((Evaluator.ofFuel n).construct c args env m))

/-- A run like any other: whichever run is asked for, it comes to what it comes to over an
evaluator. -/
def Evaluator.RunsAs (k' k : Evaluator) (env : Environment) (m : Machine) : Prop :=
  ∀ args, Value.AllKnown m.heap.classes args →
    (∀ c name, k.callStatic c name args env m = k'.callStatic c name args env m) ∧
    (∀ target name, target.Known m.heap.classes →
      k.callValue target name args env m = k'.callValue target name args env m) ∧
    ∀ c, k.construct c args env m = k'.construct c args env m

theorem Run.Ends.final {r : EStateM.Result Stop Machine α} (h : Run.Ends env as cs Q r) :
    (Run.final r).Sound env as := by
  cases r with
  | ok a m => exact h.1
  | error e m => exact h.1

theorem Machine.sound_fresh (console : Console) (patience : Option Nat)
    (output : GeneratorOutput) (hints : List String) :
    Machine.Sound env [] { console, patience, output, hints } where
  heap :=
    { items := fun _ h => absurd h (Array.not_mem_empty _)
      fields := fun _ h => absurd h (Array.not_mem_empty _)
      results := fun _ h => absurd h (Array.not_mem_empty _)
      fits := fun _ _ h => absurd h (Array.not_mem_empty _) }
  statics := fun _ h => absurd h List.not_mem_nil
  frames := .nil
  bounded := fun _ h => absurd (List.mem_of_mem_take h) List.not_mem_nil
  parked := fun _ h => absurd h (Option.not_mem_none _)

/-- Between two runs the machine is in good order, with no calls in progress. -/
theorem Machine.Between.sound {m : Machine} (h : Between env m) : m.Sound env [] := by
  -- The interpreter's own rules conform, which says of each run where it leads.
  have hk (n : Nat) : Evaluator.Alike env (Evaluator.ofFuel n) (Interpretation.plain.ofFuel n) :=
    Interpretation.conform_plain.alike n
  induction h with
  | fresh => exact sound_fresh _ _ _ _
  | @newHost m _ object ih => exact ih.grow (.newHost ih.heap object) rfl rfl rfl
  | callStatic _ n c name hargs ih =>
    obtain ⟨heq, hends⟩ := Evaluator.conforms_callStatic (hk n) c name hargs _ ih List.prefix_rfl
    rw [heq]
    exact hends.final
  | callValue _ n htarget name hargs ih =>
    obtain ⟨heq, hends⟩ :=
      Evaluator.conforms_callValue (hk n) htarget name hargs _ ih List.prefix_rfl
    rw [heq]
    exact hends.final
  | construct _ n c hargs ih =>
    obtain ⟨heq, hends⟩ := Evaluator.conforms_construct (hk n) c hargs _ ih List.prefix_rfl
    rw [heq]
    exact hends.final

/-- By rules that conform, every run that is asked for comes to what it comes to. -/
theorem Interpretation.Conform.runsAs {r : Interpretation} (hr : r.Conform env) (n : Nat)
    {m : Machine} (hm : m.Between env) : (r.ofFuel n).RunsAs (Evaluator.ofFuel n) env m := by
  have hk := hr.alike n
  intro args hargs
  refine ⟨fun c name => ?_, fun target name htarget => ?_, fun c => ?_⟩
  · exact (Evaluator.conforms_callStatic hk c name hargs m hm.sound List.prefix_rfl).1
  · exact (Evaluator.conforms_callValue hk htarget name hargs m hm.sound List.prefix_rfl).1
  · exact (Evaluator.conforms_construct hk c hargs m hm.sound List.prefix_rfl).1

end GenLang
