import GenLang.Proofs.Running.Rules
import GenLang.Proofs.Linking.Holds

/-!
# Strict runs

A strict run is given a way to end, and ends that way as soon as code of the module that is run
uses a reference that stands for no class, a static method that is not found or does not take the
arguments, or a static field that no class declares: it ends just before the exception would be
raised. Where all links hold, it never does, so that a strict run is a run like any other.
-/

namespace GenLang

/-- Ends a run where code of the module that is run needs what does not hold. -/
def Run.demand (ending : Stop) (holds : Hierarchy → Bool) : Run Unit := do
  let h ← Run.hierarchy
  if (← Run.currentModule) == h.mainIndex && !holds h then throw ending

namespace Evaluator

section

variable (ending : Stop) (k : Evaluator)

def resolveStrict (type : TypeRef) : Run ClassId := do
  Run.demand ending fun h => (h.resolve? h.mainIndex type).isSome
  Run.resolve type

def callStaticStrict (c : ClassId) (name : String) (args : List Value) : Run Value := do
  Run.demand ending fun h =>
    (h.findMethod? c name).any fun found => found.2.isStatic && found.2.accepts args.length
  k.callStatic c name args

def readStaticStrict (c : ClassId) (name : String) : Run Value := do
  Run.demand ending fun h => (h.staticOwner? c name).isSome
  k.readStatic c name

def writeStaticStrict (c : ClassId) (name : String) (v : Value) : Run Unit := do
  Run.demand ending fun h => (h.staticOwner? c name).isSome
  k.writeStatic c name v

def evalStrict : Image.Expr → Run Value
  | .type t => do
    let c ← resolveStrict ending t
    return .type c t.name
  | .new t args => do
    let c ← resolveStrict ending t
    let args ← args.mapM k.eval
    k.construct c args
  | .staticField owner name => do
    let c ← resolveStrict ending owner
    readStaticStrict ending k c name
  | .staticCall owner method args => do
    let c ← resolveStrict ending owner
    let args ← args.mapM k.eval
    callStaticStrict ending k c method args
  | e => k.evalExpr e

def execStrict : Image.Stmt → Run Flow
  | .assign line (.staticField owner name) value => do
    Run.setLine line
    let c ← resolveStrict ending owner
    let v ← k.eval value
    writeStaticStrict ending k c name v
    return .next
  | s => k.execStmt s

mutual

def evalStrictTo : Nat → Image.Expr → Run Value
  | 0, _ => throw .outOfFuel
  | n + 1, e => evalStrict ending ⟨n, evalStrictTo n, execStrictTo n, displayStrictTo n⟩ e

def execStrictTo : Nat → Image.Stmt → Run Flow
  | 0, _ => throw .outOfFuel
  | n + 1, s => execStrict ending ⟨n, evalStrictTo n, execStrictTo n, displayStrictTo n⟩ s

def displayStrictTo : Nat → Value → Run String
  | 0, _ => throw .outOfFuel
  | n + 1, v => displayValue ⟨n, evalStrictTo n, execStrictTo n, displayStrictTo n⟩ v

end

/-- Strict evaluation with an amount of fuel. -/
def strictOfFuel (n : Nat) : Evaluator :=
  ⟨n, evalStrictTo ending n, execStrictTo ending n, displayStrictTo ending n⟩

end

/-! ## What is demanded holds -/

variable {α : Type} {env : Environment} {S : Statics → Prop} {ms : List Nat} {ending : Stop}

theorem agrees_demand {holds : Hierarchy → Bool}
    (h : ms.headD env.hierarchy.mainIndex = env.hierarchy.mainIndex → holds env.hierarchy)
    {x y : Run α} (hxy : Agrees env S ms x y) :
    Agrees env S ms x (Run.demand ending holds >>= fun _ => y) := by
  intro m hm
  have hpass : Run.demand ending holds env m = .ok () m := by
    have hhierarchy : Run.hierarchy env m = .ok env.hierarchy m := rfl
    unfold Run.demand
    rw [bind_of_ok hhierarchy, bind_of_ok (currentModule_eq hm.modules)]
    by_cases hmain : ms.headD env.hierarchy.mainIndex = env.hierarchy.mainIndex
    · rw [if_neg (by rw [h hmain]; simp)]
      rfl
    · rw [beq_eq_false_iff_ne.2 hmain]
      rfl
  rw [bind_of_ok hpass]
  exact hxy m hm

/-- The links of a site hold where code of the module that is run would look them up; of code of
libraries nothing is asked. -/
def Linked (h : Hierarchy) (module : Nat) (site : Site) : Prop :=
  module = h.mainIndex → ∀ l ∈ site.links, h.holds h.mainIndex l

section

variable {sites : List Site} {site : Site}
  (hsites : Granted (Linked env.hierarchy) env.hierarchy ms sites) (hsite : site ∈ sites)

include hsites hsite

theorem agrees_demand_method {owner : TypeRef} {method : String} {count : Nat} {c : ClassId}
    (hlink : .call owner method count ∈ site.links)
    (hc : env.hierarchy.resolve? (ms.headD env.hierarchy.mainIndex) owner = some c)
    {x y : Run α} (hxy : Agrees env S ms x y) :
    Agrees env S ms x (Run.demand ending (fun h =>
      (h.findMethod? c method).any fun found => found.2.isStatic && found.2.accepts count) >>=
        fun _ => y) := by
  apply agrees_demand _ hxy
  intro hmain
  have hholds := hsites site hsite hmain _ hlink
  rw [hmain] at hc
  rwa [Hierarchy.holds, hc, Option.any_some] at hholds

theorem agrees_demand_field {owner : TypeRef} {name : String} {c : ClassId}
    (hlink : .field owner name ∈ site.links)
    (hc : env.hierarchy.resolve? (ms.headD env.hierarchy.mainIndex) owner = some c)
    {x y : Run α} (hxy : Agrees env S ms x y) :
    Agrees env S ms x (Run.demand ending (fun h => (h.staticOwner? c name).isSome) >>=
      fun _ => y) := by
  apply agrees_demand _ hxy
  intro hmain
  have hholds := hsites site hsite hmain _ hlink
  rw [hmain] at hc
  rw [Hierarchy.holds, hc, Option.any_some] at hholds
  rw [Hierarchy.staticOwner?_of_own hholds]
  rfl

theorem agrees_bind_resolveStrict {t : TypeRef} (hlink : .type t ∈ site.links)
    {f g : ClassId → Run α}
    (h : ∀ c, env.hierarchy.resolve? (ms.headD env.hierarchy.mainIndex) t = some c →
      Agrees env S ms (f c) (g c)) :
    Agrees env S ms (Run.resolve t >>= f) (resolveStrict ending t >>= g) := by
  unfold resolveStrict
  rw [bind_assoc]
  apply agrees_demand
  · intro hmain
    have hholds := hsites site hsite hmain _ hlink
    rw [Hierarchy.holds, Option.any_eq_true] at hholds
    obtain ⟨c, hc, -⟩ := hholds
    rw [hc]
    rfl
  · exact agrees_bind_resolve h

end

section

variable {k k' : Evaluator} [Statics.Lasting S] (hk : Same env S (Linked env.hierarchy) k k')
  (hcode : ∀ x : ClassId, ∀ s ∈ (env.hierarchy.typeDef x).sites,
    Linked env.hierarchy x.module s)

include hk hcode

theorem agrees_evalStrict {e : Image.Expr}
    (he : Granted (Linked env.hierarchy) env.hierarchy ms e.sites) :
    Agrees env S ms (k.evalExpr e) (evalStrict ending k' e) := by
  cases e with
  | type t =>
    apply agrees_bind_resolveStrict he List.mem_cons_self List.mem_cons_self
    intro c _
    exact agrees_pure _
  | new t args =>
    have hargs := he.mono (List.subset_cons_self _ _)
    apply agrees_bind_resolveStrict he List.mem_cons_self List.mem_cons_self
    intro c _
    apply agrees_bind (agrees_mapM (agrees_evalAll hk hargs))
    intro args
    exact agrees_construct hk hcode _ _
  -- What the strict reading asks for beyond the name, linking has promised.
  | staticField owner name =>
    apply agrees_bind_resolveStrict he List.mem_cons_self List.mem_cons_self
    intro c hc
    apply agrees_demand_field he List.mem_cons_self (List.mem_cons_of_mem _ List.mem_cons_self) hc
    exact agrees_readStatic hk hcode _ _
  | staticCall owner method args =>
    have hargs := he.mono (List.subset_cons_self _ _)
    apply agrees_bind_resolveStrict he List.mem_cons_self List.mem_cons_self
    intro c hc
    apply agrees_bind_mapM (agrees_evalAll hk hargs)
    intro vs hvs
    unfold callStaticStrict
    rw [hvs]
    apply agrees_demand_method he List.mem_cons_self (List.mem_cons_of_mem _ List.mem_cons_self) hc
    exact agrees_callStatic hk hcode _ _ _
  | _ => exact agrees_evalExpr hk hcode he

theorem agrees_execStrict {s : Image.Stmt}
    (hs : Granted (Linked env.hierarchy) env.hierarchy ms s.sites) :
    Agrees env S ms (k.execStmt s) (execStrict ending k' s) := by
  -- only assignments to static fields are read more strictly
  by_cases hstatic : ∃ line owner name value, s = .assign line (.staticField owner name) value
  · obtain ⟨line, owner, name, value, rfl⟩ := hstatic
    have hvalue := hs.mono (List.subset_append_right _ _)
    unfold execStmt execStrict
    apply agrees_bind (agrees_setLine _)
    intro _
    show Agrees env S ms ((Run.resolve owner >>= _) >>= _) _
    rw [bind_assoc]
    apply agrees_bind_resolveStrict hs List.mem_cons_self List.mem_cons_self
    intro c hc
    rw [bind_assoc]
    apply agrees_bind (hk.eval hvalue)
    intro v
    refine agrees_bind ?_ fun _ => agrees_pure _
    apply agrees_demand_field hs List.mem_cons_self (List.mem_cons_of_mem _ List.mem_cons_self) hc
    exact agrees_writeStatic hk hcode _ _ _
  · rw [execStrict]
    · exact agrees_execStmt hk hcode hs
    · intro line owner name value heq
      exact hstatic ⟨line, owner, name, value, heq⟩

end

/-! ## Strict runs are runs -/

section

variable [Statics.Lasting S] (hcode : ∀ x : ClassId, ∀ s ∈ (env.hierarchy.typeDef x).sites,
  Linked env.hierarchy x.module s)

include hcode

/-- By induction on the fuel: an evaluator for the parts that agrees gives one that agrees. -/
theorem same_strict (n : Nat) :
    Same env S (Linked env.hierarchy) (ofFuel n) (strictOfFuel ending n) := by
  induction n with
  | zero =>
    exact ⟨rfl, fun _ => agrees_throw _, fun _ => agrees_throw _, fun _ => agrees_throw _⟩
  | succ n ih =>
    exact ⟨rfl, fun he => agrees_evalStrict ih hcode he, fun hs => agrees_execStrict ih hcode hs,
      fun v => agrees_displayValue ih hcode v⟩

end

end Evaluator

/-! ## Code of the module that is run -/

namespace Hierarchy

variable {h : Hierarchy}

theorem linked_of_links (hlinks : ∀ t ∈ h.main.types, ∀ l ∈ t.links, h.holds h.mainIndex l)
    (x : ClassId) : ∀ s ∈ (h.typeDef x).sites, Evaluator.Linked h x.module s := by
  intro s hs hmain l hl
  rcases h.typeDef_mem_or x with hx | hx
  · rw [hmain, module_mainIndex] at hx
    refine hlinks _ hx l ?_
    rw [TypeDef.links_eq, List.mem_append]
    exact .inr (List.mem_flatMap_of_mem hs hl)
  · rw [hx] at hs
    exact absurd hs List.not_mem_nil

end Hierarchy

end GenLang
