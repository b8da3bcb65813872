import GenLang.Proofs.Running.Rules

/-!
# Guarded runs

A guarded run is given a way to end, and ends that way as soon as its code is to make an object or
to call a static method that cannot be had: there are no objects of the class, no constructor takes
the arguments, or nothing is there to be run. Where sites have what they need, a guarded run is a
run like any other.
-/

namespace GenLang

/-- Whether an object of a class can be made with so many arguments: it is no capability, neither
abstract nor static, and its constructor takes the arguments, or there is none and neither are there
arguments. Type parameters are not looked at. -/
def Hierarchy.constructs (h : Hierarchy) (c : ClassId) (count : Nat) : Bool :=
  let t := h.typeDef c
  let constructor? := (h.findMethod? c "init").filter (!·.2.isStatic)
  t.kind == .class_ && !t.isAbstract && !t.isStatic &&
    (constructor?.map (·.2.accepts count)).getD (count == 0)

/-- Whether there is something to run for a method of a type. -/
def TypeDef.executes (t : TypeDef) (natives : String → String → Option Native) (m : MethodDef) :
    Bool :=
  if m.isNative then (natives t.name m.name).isSome else m.body.isSome

namespace Environment

/-- Whether a static method is found that takes so many arguments, with something to run unless a
capability declares it. -/
def calls (env : Environment) (c : ClassId) (name : String) (count : Nat) : Bool :=
  (env.hierarchy.findMethod? c name).any fun found =>
    let t := env.hierarchy.typeDef found.1
    found.2.isStatic && found.2.accepts count &&
      (t.kind == .capability || t.executes env.natives found.2)

/-- Whether a site in the code of a module has what it needs. -/
def provides (env : Environment) (module : Nat) : Site → Bool
  | .new t count => (env.hierarchy.resolve? module t).any (env.hierarchy.constructs · count)
  | .call owner method count => (env.hierarchy.resolve? module owner).any (env.calls · method count)
  | .type _ | .field _ _ => true

end Environment

/-- Ends a run at a site that lacks what it needs, in the code of a module that is loaded. -/
def Run.guard (ending : Stop) (site : Site) : Run Unit := do
  let env ← read
  let module ← Run.currentModule
  if module ≤ env.hierarchy.mainIndex && !env.provides module site then throw ending

namespace Evaluator

section

variable (ending : Stop)

def evalGuarded (k : Evaluator) : Image.Expr → Run Value
  | .new t args => do
    Run.guard ending (.new t args.length)
    k.evalExpr (.new t args)
  | .staticCall owner method args => do
    Run.guard ending (.call owner method args.length)
    k.evalExpr (.staticCall owner method args)
  | e => k.evalExpr e

mutual

def evalGuardedTo : Nat → Image.Expr → Run Value
  | 0, _ => throw .outOfFuel
  | n + 1, e => evalGuarded ending ⟨n, evalGuardedTo n, execGuardedTo n, displayGuardedTo n⟩ e

def execGuardedTo : Nat → Image.Stmt → Run Flow
  | 0, _ => throw .outOfFuel
  | n + 1, s => execStmt ⟨n, evalGuardedTo n, execGuardedTo n, displayGuardedTo n⟩ s

def displayGuardedTo : Nat → Value → Run String
  | 0, _ => throw .outOfFuel
  | n + 1, v => displayValue ⟨n, evalGuardedTo n, execGuardedTo n, displayGuardedTo n⟩ v

end

/-- Guarded evaluation with an amount of fuel. -/
def guardedOfFuel (n : Nat) : Evaluator :=
  ⟨n, evalGuardedTo ending n, execGuardedTo ending n, displayGuardedTo ending n⟩

end

/-! ## Guards that let pass -/

/-- A site has what it needs, if its module is loaded. -/
def Provided (env : Environment) (module : Nat) (site : Site) : Prop :=
  module ≤ env.hierarchy.mainIndex → env.provides module site

variable {env : Environment} {S : Statics → Prop} {ms : List Nat} {ending : Stop}

theorem agrees_guard {α : Type} {site : Site}
    (hsite : Provided env (ms.headD env.hierarchy.mainIndex) site) {x y : Run α}
    (hxy : Agrees env S ms x y) : Agrees env S ms x (Run.guard ending site >>= fun _ => y) := by
  intro m hm
  have hpass : Run.guard ending site env m = .ok () m := by
    have hread : (read : Run Environment) env m = .ok env m := rfl
    unfold Run.guard
    rw [bind_of_ok hread, bind_of_ok (currentModule_eq hm.modules)]
    by_cases hloaded : ms.headD env.hierarchy.mainIndex ≤ env.hierarchy.mainIndex
    · rw [hsite hloaded, Bool.not_true, Bool.and_false]
      rfl
    · rw [decide_eq_false hloaded, Bool.false_and]
      rfl
  rw [bind_of_ok hpass]
  exact hxy m hm

variable [Statics.Lasting S]
  (hcode : ∀ x : ClassId, ∀ s ∈ (env.hierarchy.typeDef x).sites, Provided env x.module s)

include hcode

theorem agrees_evalGuarded {k k' : Evaluator} (hk : Same env S (Provided env) k k')
    {e : Image.Expr} (he : Granted (Provided env) env.hierarchy ms e.sites) :
    Agrees env S ms (k.evalExpr e) (evalGuarded ending k' e) := by
  have hagrees := agrees_evalExpr hk hcode he
  cases e with
  | new t args => exact agrees_guard (he _ List.mem_cons_self) hagrees
  | staticCall owner method args => exact agrees_guard (he _ List.mem_cons_self) hagrees
  | _ => exact hagrees

/-- By induction on the fuel, as only the guards differ. -/
theorem same_guarded (n : Nat) :
    Same env S (Provided env) (ofFuel n) (guardedOfFuel ending n) := by
  induction n with
  | zero => exact ⟨rfl, fun _ => agrees_throw _, fun _ => agrees_throw _, fun _ => agrees_throw _⟩
  | succ n ih =>
    exact ⟨rfl, fun he => agrees_evalGuarded hcode ih he, fun hs => agrees_execStmt ih hcode hs,
      fun v => agrees_displayValue ih hcode v⟩

end Evaluator

end GenLang
