import GenLang.Proofs.Running.Rules

/-!
# Initialisation of static fields

A class gets its entry among the static fields before the first of its initialisers runs, and no run
takes an entry away. So initialisers run once: a run that starts when a class has its entry is as a
run that would end, in any way one likes, where initialisers of that class would have to run. The
other side of it is what a run finds that comes after an initialiser that failed.
-/

namespace GenLang

namespace Statics

theorem has_enter (s : Statics) (c : ClassId) : (s.enter c).has c = true := by
  rw [enter]
  split
  · assumption
  · simp [has, List.lookup_append]

theorem lookup_enter {s : Statics} {c : ClassId} (h : s.has c = true) (d : ClassId) :
    (s.enter d).lookup c = s.lookup c := by
  rw [enter]
  split
  · rfl
  · rw [List.lookup_append, Option.or_of_isSome h]

theorem lookup_cons_eq {α β : Type} [DecidableEq α] (a b : α) (v : β) (l : List (α × β)) :
    ((b, v) :: l).lookup a = if a = b then some v else l.lookup a := by
  rw [List.lookup_cons]
  by_cases h : a = b
  · rw [if_pos h, beq_iff_eq.2 h]
  · rw [if_neg h, beq_eq_false_iff_ne.2 h]

theorem lookup_filter_ne {α β : Type} [DecidableEq α] {a b : α} (h : a ≠ b) (l : List (α × β)) :
    (l.filter (·.1 != b)).lookup a = l.lookup a := by
  induction l with
  | nil => rfl
  | cons p l ih =>
    obtain ⟨c, v⟩ := p
    by_cases hc : c = b
    · rw [List.filter_cons_of_neg (by simpa using hc), ih, lookup_cons_eq, if_neg (hc ▸ h)]
    · rw [List.filter_cons_of_pos (by simpa using hc), lookup_cons_eq, lookup_cons_eq, ih]

/-- What the entry of a class becomes when one of its fields is written. -/
theorem lookup_set (s : Statics) (d : ClassId) (name : String) (v : Value) (c : ClassId) :
    (s.set d name v).lookup c =
      if c = d then (s.lookup d).map fun fields => fields.filter (·.1 != name) ++ [(name, v)]
      else s.lookup c := by
  induction s with
  | nil => rw [set, List.map_nil, List.lookup_nil, List.lookup_nil, Option.map_none, ite_self]
  | cons entry s ih =>
    rw [set, List.map_cons, ← set]
    obtain ⟨x, fields⟩ := entry
    by_cases hx : x = d
    · subst hx
      rw [if_pos (beq_self_eq_true x), lookup_cons_eq, lookup_cons_eq, lookup_cons_eq, ih]
      by_cases hc : c = x <;> simp [hc]
    · rw [if_neg (by simpa using hx), lookup_cons_eq, lookup_cons_eq, lookup_cons_eq, ih]
      by_cases hc : c = x
      · simp [hc, hx]
      · rw [if_neg hc, if_neg hc, if_neg (Ne.symm hx)]

theorem has_set (s : Statics) (d : ClassId) (name : String) (v : Value) (c : ClassId) :
    (s.set d name v).has c = s.has c := by
  rw [has, lookup_set]
  split
  · subst c
    rw [Option.isSome_map, has]
  · rfl

/-- A field that is written has its value, and all other fields have theirs. -/
theorem get?_set (s : Statics) (d : ClassId) (name : String) (v : Value) (c : ClassId)
    (other : String) :
    (s.set d name v).get? c other =
      if c = d ∧ other = name then if s.has d then some v else none else s.get? c other := by
  rw [get?, lookup_set, get?, has]
  by_cases hc : c = d
  · subst hc
    rw [if_pos rfl]
    cases s.lookup c with
    | none => simp
    | some fields =>
      rw [Option.map_some, Option.bind_some, Option.bind_some, List.lookup_append]
      -- within the class, the old value of the field is gone and the new one stands last
      by_cases hname : other = name
      · subst hname
        have hgone : (fields.filter (·.1 != other)).lookup other = none := by
          rw [List.lookup_eq_none_iff]
          intro p hp
          have := (List.mem_filter.1 hp).2
          simpa [bne_comm] using this
        rw [hgone, Option.none_or, lookup_cons_eq, if_pos rfl, if_pos ⟨rfl, rfl⟩]
        rfl
      · rw [lookup_filter_ne hname, lookup_cons_eq, if_neg hname, if_neg (hname ·.2),
          List.lookup_nil, Option.or_none]
  · rw [if_neg hc, if_neg (hc ·.1)]

/-- An entry is never taken away. -/
instance lasting_has (c : ClassId) : Lasting fun s => s.has c = true where
  enter d h := by rwa [has, lookup_enter h]
  set d name v h := by rwa [has_set]

theorem has_of_isSome {s : Statics} {c : ClassId} {name : String}
    (h : (s.get? c name).isSome = true) : s.has c = true :=
  Option.isSome_of_isSome_bind h

/-- Neither is the value of a field. -/
instance lasting_isSome (c : ClassId) (name : String) :
    Lasting fun s => (s.get? c name).isSome = true where
  enter d h := by rwa [get?, lookup_enter (has_of_isSome h)]
  set d other v h := by
    rw [get?_set]
    split
    · next heq =>
      rw [if_pos (heq.1 ▸ has_of_isSome h)]
      rfl
    · exact h

/-- All fields of a list have a value. -/
def Full (c : ClassId) (fields : List FieldDef) (s : Statics) : Prop :=
  ∀ f ∈ fields, (s.get? c f.name).isSome = true

instance lasting_full (c : ClassId) (fields : List FieldDef) : Lasting (Full c fields) where
  enter d h f hf := Lasting.enter (S := fun s => (s.get? c f.name).isSome = true) d (h f hf)
  set d name v h f hf :=
    Lasting.set (S := fun s => (s.get? c f.name).isSome = true) d name v (h f hf)

end Statics

namespace Evaluator

/-! ## Every kind of run -/

/-- From a state one computation does what the other does, and leaves static fields as `S` says. -/
def Goes {α : Type} (S : Statics → Prop) (env : Environment) (m : Machine)
    (x y : Run α) : Prop :=
  x env m = y env m ∧ S (Run.final (x env m)).statics

/-- So it is for all that an evaluator is asked to do. -/
structure RunsLike (S : Statics → Prop) (env : Environment) (k k' : Evaluator) (m : Machine) :
    Prop where
  eval : ∀ e, Goes S env m (k.eval e) (k'.eval e)
  exec : ∀ s, Goes S env m (k.exec s) (k'.exec s)
  display : ∀ v, Goes S env m (k.display v) (k'.display v)
  callStatic : ∀ c name args, Goes S env m (k.callStatic c name args) (k'.callStatic c name args)
  callValue : ∀ v name args, Goes S env m (k.callValue v name args) (k'.callValue v name args)
  construct : ∀ c args, Goes S env m (k.construct c args) (k'.construct c args)
  readStatic : ∀ c name, Goes S env m (k.readStatic c name) (k'.readStatic c name)
  writeStatic : ∀ c name v, Goes S env m (k.writeStatic c name v) (k'.writeStatic c name v)
  enter : ∀ code, Goes S env m (k.enter code) (k'.enter code)

section

variable {α : Type} {env : Environment} {S : Statics → Prop} {k k' : Evaluator} {m : Machine}

theorem goes_of_agrees {x y : Run α} (h : Agrees env S m.modules x y) (hm : S m.statics) :
    Goes S env m x y := by
  obtain ⟨heq, hafter⟩ := h m ⟨rfl, hm⟩
  exact ⟨heq, heq ▸ hafter.statics⟩

/-- Evaluators that agree on all code. -/
abbrev SameAll (env : Environment) (S : Statics → Prop) (k k' : Evaluator) : Prop :=
  Same env S (fun _ _ => True) k k'

theorem SameAll.runsLike [Statics.Lasting S] (hk : SameAll env S k k') (hm : S m.statics) :
    RunsLike S env k k' m where
  eval _ := goes_of_agrees (hk.eval fun _ _ => trivial) hm
  exec _ := goes_of_agrees (hk.exec fun _ _ => trivial) hm
  display v := goes_of_agrees (hk.display v) hm
  callStatic c name args :=
    goes_of_agrees (agrees_callStatic hk (fun _ _ _ => trivial) c name args) hm
  callValue v name args :=
    goes_of_agrees (agrees_callValue hk (fun _ _ _ => trivial) v name args) hm
  construct c args := goes_of_agrees (agrees_construct hk (fun _ _ _ => trivial) c args) hm
  readStatic c name := goes_of_agrees (agrees_readStatic hk (fun _ _ _ => trivial) c name) hm
  writeStatic c name v := goes_of_agrees (agrees_writeStatic hk (fun _ _ _ => trivial) c name v) hm
  enter code := goes_of_agrees (agrees_enter hk code) hm

/-- What lasts, lasts in every run: by induction on the fuel. -/
theorem sameAll_self [Statics.Lasting S] (n : Nat) : SameAll env S (ofFuel n) (ofFuel n) := by
  induction n with
  | zero =>
    exact ⟨rfl, fun _ => agrees_throw _, fun _ => agrees_throw _, fun _ => agrees_throw _⟩
  | succ n ih =>
    exact ⟨rfl, fun he => agrees_evalExpr ih (fun _ _ _ => trivial) he,
      fun hs => agrees_execStmt ih (fun _ _ _ => trivial) hs,
      fun v => agrees_displayValue ih (fun _ _ _ => trivial) v⟩

end

/-! ## Runs that spare a class -/

section

variable (ending : Stop) (c : ClassId)

/-- Ends a run where the use of a static field would have initialisers of a class run. -/
def spare (x : ClassId) (name : String) : Run Unit := do
  let h ← Run.hierarchy
  if h.staticOwner? x name == some c && !(← get).statics.has c then throw ending

/-- The same for a member of a value, which is a static field where the value is a type. -/
def spareMember (target : Value) (name : String) : Run Unit :=
  match target with
  | .type x _ => spare ending c x name
  | _ => pure ()

def evalSparing (k : Evaluator) : Image.Expr → Run Value
  | .staticField owner name => do
    let x ← Run.resolve owner
    spare ending c x name
    k.readStatic x name
  | .field target name => do
    let target ← k.eval target
    spareMember ending c target name
    k.getMember target name
  | e => k.evalExpr e

def execSparing (k : Evaluator) : Image.Stmt → Run Flow
  | .assign line (.staticField owner name) value => do
    Run.setLine line
    let x ← Run.resolve owner
    let v ← k.eval value
    spare ending c x name
    k.writeStatic x name v
    return .next
  | .assign line (.field target name) value => do
    Run.setLine line
    let target ← k.eval target
    let v ← k.eval value
    spareMember ending c target name
    k.setMember target name v
    return .next
  | s => k.execStmt s

mutual

def evalSparingTo : Nat → Image.Expr → Run Value
  | 0, _ => throw .outOfFuel
  | n + 1, e => evalSparing ending c ⟨n, evalSparingTo n, execSparingTo n, displaySparingTo n⟩ e

def execSparingTo : Nat → Image.Stmt → Run Flow
  | 0, _ => throw .outOfFuel
  | n + 1, s => execSparing ending c ⟨n, evalSparingTo n, execSparingTo n, displaySparingTo n⟩ s

def displaySparingTo : Nat → Value → Run String
  | 0, _ => throw .outOfFuel
  | n + 1, v => displayValue ⟨n, evalSparingTo n, execSparingTo n, displaySparingTo n⟩ v

end

/-- Evaluation with an amount of fuel that ends where initialisers of a class would begin to run. -/
def sparingOfFuel (n : Nat) : Evaluator :=
  ⟨n, evalSparingTo ending c n, execSparingTo ending c n, displaySparingTo ending c n⟩

end

section

variable {α : Type} {env : Environment} {ms : List Nat} {ending : Stop} {c : ClassId}

/-- No class is spared that has its entry. -/
theorem agrees_spare {x y : Run α} (hxy : Agrees env (·.has c = true) ms x y) (d : ClassId)
    (name : String) :
    Agrees env (·.has c = true) ms x (spare ending c d name >>= fun _ => y) := by
  intro m hm
  have hpass : spare ending c d name env m = .ok () m := by
    have hhierarchy : Run.hierarchy env m = .ok env.hierarchy m := rfl
    have hget : (get : Run Machine) env m = .ok m m := rfl
    unfold spare
    rw [bind_of_ok hhierarchy, bind_of_ok hget, if_neg (by simp [hm.statics])]
    rfl
  rw [bind_of_ok hpass]
  exact hxy m hm

theorem agrees_spareMember {x y : Run α} (hxy : Agrees env (·.has c = true) ms x y)
    (target : Value) (name : String) :
    Agrees env (·.has c = true) ms x (spareMember ending c target name >>= fun _ => y) := by
  unfold spareMember
  split
  · exact agrees_spare hxy _ _
  · exact hxy

variable {k k' : Evaluator} (hk : SameAll env (·.has c = true) k k')

include hk

theorem agrees_evalSparing (e : Image.Expr) :
    Agrees env (·.has c = true) ms (k.evalExpr e) (evalSparing ending c k' e) := by
  cases e with
  | staticField owner name =>
    apply agrees_bind (agrees_resolve _)
    intro x
    apply agrees_spare
    exact agrees_readStatic hk (fun _ _ _ => trivial) _ _
  | field target name =>
    apply agrees_bind (hk.eval fun _ _ => trivial)
    intro v
    apply agrees_spareMember
    exact agrees_getMember hk (fun _ _ _ => trivial) _ _
  | _ => exact agrees_evalExpr hk (fun _ _ _ => trivial) fun _ _ => trivial

theorem agrees_execSparing (s : Image.Stmt) :
    Agrees env (·.has c = true) ms (k.execStmt s) (execSparing ending c k' s) := by
  have hrest : Agrees env (·.has c = true) ms (k.execStmt s) (k'.execStmt s) :=
    agrees_execStmt hk (fun _ _ _ => trivial) fun _ _ => trivial
  cases s with
  | assign line p value =>
    cases p with
    -- Assignments to static fields are spared where the class is the one that was initialised.
    | staticField owner name =>
      unfold execStmt execSparing
      refine agrees_bind (agrees_setLine _) fun _ => ?_
      show Agrees env _ ms ((Run.resolve owner >>= _) >>= _) _
      rw [bind_assoc]
      refine agrees_bind (agrees_resolve _) fun x => ?_
      rw [bind_assoc]
      refine agrees_bind (hk.eval fun _ _ => trivial) fun v => ?_
      apply agrees_spare
      refine agrees_bind ?_ fun _ => agrees_pure _
      exact agrees_writeStatic hk (fun _ _ _ => trivial) _ _ _
    -- A member of a type is a static field, too.
    | field target name =>
      unfold execStmt execSparing
      refine agrees_bind (agrees_setLine _) fun _ => ?_
      show Agrees env _ ms ((k.eval target >>= _) >>= _) _
      rw [bind_assoc]
      refine agrees_bind (hk.eval fun _ _ => trivial) fun target => ?_
      rw [bind_assoc]
      refine agrees_bind (hk.eval fun _ _ => trivial) fun v => ?_
      apply agrees_spareMember
      refine agrees_bind ?_ fun _ => agrees_pure _
      exact agrees_setMember hk (fun _ _ _ => trivial) _ _ _
    | _ => exact hrest
  | _ => exact hrest

end

/-- Where a class has its entry, no run has initialisers of it to run: by induction on the fuel. -/
theorem sameAll_sparing {env : Environment} {ending : Stop} {c : ClassId} (n : Nat) :
    SameAll env (·.has c = true) (ofFuel n) (sparingOfFuel ending c n) := by
  induction n with
  | zero =>
    exact ⟨rfl, fun _ => agrees_throw _, fun _ => agrees_throw _, fun _ => agrees_throw _⟩
  | succ n ih =>
    exact ⟨rfl, fun _ => agrees_evalSparing ih _, fun _ => agrees_execSparing ih _,
      fun v => agrees_displayValue ih (fun _ _ _ => trivial) v⟩

/-! ## Initialisers run once -/

section

variable {env : Environment} {c : ClassId} {m : Machine}

theorem ensureStatics_of_has (k : Evaluator) (h : m.statics.has c = true) :
    k.ensureStatics c env m = .ok () m := by
  have hget : (get : Run Machine) env m = .ok m m := rfl
  unfold ensureStatics
  rw [bind_of_ok hget, if_pos h]
  rfl

/-- The fields of a class that belong to the class itself. -/
def staticFields (h : Hierarchy) (c : ClassId) : List FieldDef :=
  (h.typeDef c).fields.filter (·.isStatic)

theorem ensureStatics_of_not_has (k : Evaluator) (h : m.statics.has c = false) :
    k.ensureStatics c env m =
      k.initStatics env.hierarchy c (staticFields env.hierarchy c) env
        { m with statics := m.statics.enter c } := by
  have hget : (get : Run Machine) env m = .ok m m := rfl
  unfold ensureStatics
  rw [bind_of_ok hget, if_neg (by simp [h])]
  rfl

theorem staticOwner_eq (k : Evaluator) {x : ClassId} {name : String}
    (howner : env.hierarchy.staticOwner? x name = some c) :
    k.staticOwner x name env m = (k.ensureStatics c >>= fun _ => pure c) env m := by
  have hhierarchy : Run.hierarchy env m = .ok env.hierarchy m := rfl
  unfold staticOwner
  rw [bind_of_ok hhierarchy, howner]

theorem staticOwner_of_has (k : Evaluator) {x : ClassId} {name : String}
    (howner : env.hierarchy.staticOwner? x name = some c) (h : m.statics.has c = true) :
    k.staticOwner x name env m = .ok c m := by
  rw [staticOwner_eq k howner, bind_of_ok (ensureStatics_of_has k h)]
  rfl

theorem readStatic_of_has (k : Evaluator) {x : ClassId} {name : String}
    (howner : env.hierarchy.staticOwner? x name = some c) (h : m.statics.has c = true) :
    k.readStatic x name env m = .ok ((m.statics.get? c name).getD .null) m := by
  rw [readStatic, bind_of_ok (staticOwner_of_has k howner h)]
  rfl

theorem writeStatic_of_has (k : Evaluator) {x : ClassId} {name : String}
    (howner : env.hierarchy.staticOwner? x name = some c) (h : m.statics.has c = true)
    (v : Value) :
    k.writeStatic x name v env m = .ok () { m with statics := m.statics.set c name v } := by
  rw [writeStatic, bind_of_ok (staticOwner_of_has k howner h)]
  rfl

/-- Once a class has its entry among the static fields, it keeps it in every run, and no run has
initialisers of the class to run: it is as a run that spares the class. Its fields are read and
written as they are, then. Where it has no entry yet, it gets one first and its initialisers run one
after the other, each of them in runs that spare the class. -/
theorem initialisers_run_once (n : Nat) (env : Environment) (c : ClassId) :
    (∀ ending m, m.statics.has c = true →
      RunsLike (·.has c = true) env (ofFuel n) (sparingOfFuel ending c n) m) ∧
    (∀ (k : Evaluator) x name m, env.hierarchy.staticOwner? x name = some c →
      m.statics.has c = true →
      k.readStatic x name env m = .ok ((m.statics.get? c name).getD .null) m ∧
      ∀ v, k.writeStatic x name v env m =
        .ok () { m with statics := m.statics.set c name v }) ∧
    ∀ ending m, m.statics.has c = false →
      (ofFuel n).ensureStatics c env m =
        (sparingOfFuel ending c n).initStatics env.hierarchy c (staticFields env.hierarchy c) env
          { m with statics := m.statics.enter c } ∧
      (Run.final ((ofFuel n).ensureStatics c env m)).statics.has c = true := by
  refine ⟨fun ending m hm => (sameAll_sparing n).runsLike hm, ?_, ?_⟩
  · intro k x name m howner hm
    exact ⟨readStatic_of_has k howner hm, writeStatic_of_has k howner hm⟩
  · intro ending m hm
    have hentered : ({ m with statics := m.statics.enter c } : Machine).statics.has c = true :=
      Statics.has_enter _ _
    have hagrees : Agrees env (·.has c = true) m.modules
        ((ofFuel n).initStatics env.hierarchy c (staticFields env.hierarchy c))
        ((sparingOfFuel ending c n).initStatics env.hierarchy c (staticFields env.hierarchy c)) :=
      agrees_initStatics (sameAll_sparing n) (fun _ _ _ => trivial) (List.filter_subset_self _)
    obtain ⟨heq, hafter⟩ := hagrees { m with statics := m.statics.enter c } ⟨rfl, hentered⟩
    rw [ensureStatics_of_not_has _ hm, heq]
    exact ⟨rfl, hafter.statics⟩

end

/-- A class that reads one of its static fields while another is initialised. -/
def entangled : TypeDef :=
  { (default : TypeDef) with
    name := "Entangled", file := "M.gen"
    fields := [
      ⟨"early", true, some (.staticField ⟨none, "Entangled"⟩ "late"), 1⟩,
      ⟨"late", true, some (.const (.int 2)), 2⟩] }

def entangledEnvironment : Environment :=
  { hierarchy := ⟨[], { (default : Image) with types := [entangled] }⟩, maxCallDepth := 8 }

/-- The field that is read too early is `null` then, and its initialiser runs all the same, once. -/
theorem initialisers_run_once_entangled :
    (ofFuel 8).readStatic ⟨0, 0⟩ "late" entangledEnvironment
        { statics := [(⟨0, 0⟩, [("early", .null), ("late", .int 2)])] } =
      .ok (.int 2) { statics := [(⟨0, 0⟩, [("early", .null), ("late", .int 2)])] } ∧
    (sparingOfFuel .cancelled ⟨0, 0⟩ 8).initStatics entangledEnvironment.hierarchy ⟨0, 0⟩
        (staticFields entangledEnvironment.hierarchy ⟨0, 0⟩) entangledEnvironment
        { statics := [(⟨0, 0⟩, [])] } =
      .ok () { statics := [(⟨0, 0⟩, [("early", .null), ("late", .int 2)])] } ∧
    RunsLike (·.has ⟨0, 0⟩ = true) entangledEnvironment (ofFuel 8)
      (sparingOfFuel .cancelled ⟨0, 0⟩ 8) { statics := [(⟨0, 0⟩, [])] } := by
  have hall := initialisers_run_once 8 entangledEnvironment ⟨0, 0⟩
  refine ⟨(hall.2.1 (ofFuel 8) ⟨0, 0⟩ "late" _ rfl rfl).1, ?_, hall.1 .cancelled _ rfl⟩
  rw [← show Statics.enter [] ⟨0, 0⟩ = [(⟨0, 0⟩, [])] from rfl, ← (hall.2.2 .cancelled {} rfl).1]
  rfl

/-! ## Initialisation that is finished -/

section

variable {env : Environment} {c : ClassId} {k : Evaluator} {f : FieldDef} {fields : List FieldDef}
  {m : Machine}

/-- Gives a static field its value, and goes on with the fields behind it. -/
def initRest (k : Evaluator) (h : Hierarchy) (c : ClassId) (f : FieldDef) (fields : List FieldDef)
    (v : Value) : Run Unit := do
  modify fun m => { m with statics := m.statics.set c f.name v }
  k.initStatics h c fields

theorem initStatics_blank (hinit : f.init = none) :
    k.initStatics env.hierarchy c (f :: fields) = initRest k env.hierarchy c f fields .null := by
  rw [initStatics, hinit]
  rfl

/-- How the initialiser of a static field of a class is evaluated. -/
def initialiser (k : Evaluator) (h : Hierarchy) (c : ClassId) (f : FieldDef) (init : Image.Expr) :
    Run Value :=
  Run.inFrame (frameOf h c ".cctor" f.line none #[]) (k.eval init)

theorem initStatics_value {init : Image.Expr} (hinit : f.init = some init) :
    k.initStatics env.hierarchy c (f :: fields) =
      initialiser k env.hierarchy c f init >>= initRest k env.hierarchy c f fields := by
  rw [initStatics, hinit]
  rfl

end

/-- Static fields get their first values: every initialiser is evaluated to a value, one after the
other, and a field without one is `null`. -/
inductive Initialised (k : Evaluator) (env : Environment) (c : ClassId) :
    List FieldDef → Machine → Machine → Prop
  | done (m) : Initialised k env c [] m m
  | blank {f fields m m'} (hinit : f.init = none)
      (hrest : Initialised k env c fields
        { m with statics := m.statics.set c f.name .null } m') :
      Initialised k env c (f :: fields) m m'
  | value {f fields init v m m' m''} (hinit : f.init = some init)
      (hvalue : initialiser k env.hierarchy c f init env m = .ok v m')
      (hrest : Initialised k env c fields
        { m' with statics := m'.statics.set c f.name v } m'') :
      Initialised k env c (f :: fields) m m''

theorem initialised_of_ok {k : Evaluator} {env : Environment} {c : ClassId}
    {fields : List FieldDef} {m m' : Machine}
    (h : k.initStatics env.hierarchy c fields env m = .ok () m') :
    Initialised k env c fields m m' := by
  induction fields generalizing m with
  | nil =>
    cases h
    exact .done _
  | cons f fields ih =>
    cases hinit : f.init with
    | none =>
      rw [initStatics_blank hinit] at h
      exact .blank hinit (ih h)
    | some init =>
      rw [initStatics_value hinit] at h
      -- an initialiser that fails ends the whole, and this one did not end
      cases hvalue : initialiser k env.hierarchy c f init env m with
      | ok v m₁ =>
        rw [bind_of_ok hvalue] at h
        exact .value hinit hvalue (ih h)
      | error e m₁ =>
        rw [bind_of_error hvalue] at h
        cases h

section

variable {env : Environment} {c : ClassId} {m m' : Machine}

/-- The first of the fields gets a value, and the others are left. -/
theorem initStatics_cons_ok (n : Nat) {f : FieldDef} {fields : List FieldDef}
    (hm : m.statics.has c = true)
    (h : (ofFuel n).initStatics env.hierarchy c (f :: fields) env m = .ok () m') :
    ∃ (m₁ : Machine) (v : Value), m₁.statics.has c = true ∧
      (ofFuel n).initStatics env.hierarchy c fields env
        { m₁ with statics := m₁.statics.set c f.name v } = .ok () m' := by
  cases hinit : f.init with
  | none =>
    rw [initStatics_blank hinit] at h
    exact ⟨m, .null, hm, h⟩
  | some init =>
    rw [initStatics_value hinit] at h
    have hkeep : Keeps env (·.has c = true) m.modules
        (initialiser (ofFuel n) env.hierarchy c f init) :=
      agrees_inFrame ((sameAll_self n).eval fun _ _ => trivial)
    have hafter := (hkeep m ⟨rfl, hm⟩).2.statics
    cases hvalue : initialiser (ofFuel n) env.hierarchy c f init env m with
    | ok v m₁ =>
      rw [hvalue] at hafter
      rw [bind_of_ok hvalue] at h
      exact ⟨m₁, v, hafter, h⟩
    | error e m₁ =>
      rw [bind_of_error hvalue] at h
      cases h

/-- Fields that are gone through have a value: what one is given lasts while the others are
initialised. -/
theorem full_of_ok (n : Nat) {fields : List FieldDef}
    (hfields : fields ⊆ (env.hierarchy.typeDef c).fields) (hm : m.statics.has c = true)
    (h : (ofFuel n).initStatics env.hierarchy c fields env m = .ok () m') :
    Statics.Full c fields m'.statics := by
  induction fields generalizing m with
  | nil => exact fun _ hf => absurd hf List.not_mem_nil
  | cons f fields ih =>
    have hsub := List.subset_of_cons_subset hfields
    obtain ⟨m₁, v, hm₁, hrest⟩ := initStatics_cons_ok n hm h
    intro g hg
    rcases List.mem_cons.1 hg with rfl | hg
    · have hvalue : ((m₁.statics.set c g.name v).get? c g.name).isSome = true := by
        rw [Statics.get?_set, if_pos ⟨rfl, rfl⟩, if_pos hm₁]
        rfl
      -- what was set stays set, whatever the initialisers behind it do
      have hkeep : Keeps env (fun s => (s.get? c g.name).isSome = true) m₁.modules
          ((ofFuel n).initStatics env.hierarchy c fields) :=
        agrees_initStatics (sameAll_self n) (fun _ _ _ => trivial) hsub
      have hafter := (hkeep { m₁ with statics := m₁.statics.set c g.name v } ⟨rfl, hvalue⟩).2
      rw [hrest] at hafter
      exact hafter.statics
    · have hset : (m₁.statics.set c f.name v).has c = true := by rw [Statics.has_set, hm₁]
      exact ih hsub hset hrest g hg

/-- The class that a static field is found in has the field. -/
theorem mem_staticFields {h : Hierarchy} {x : ClassId} {name : String}
    (howner : h.staticOwner? x name = some c) : ∃ f ∈ staticFields h c, f.name = name := by
  have hfield := List.find?_some howner
  obtain ⟨f, hf, hstatic⟩ := (Option.any_eq_true _ _).1 hfield
  have hname := List.find?_some (p := fun f : FieldDef => f.name == name) hf
  exact ⟨f, List.mem_filter.2 ⟨List.mem_of_find?_eq_some hf, hstatic⟩, beq_iff_eq.1 hname⟩

theorem readStatic_of_full (k : Evaluator) {x : ClassId} {name : String}
    (howner : env.hierarchy.staticOwner? x name = some c)
    (hfull : Statics.Full c (staticFields env.hierarchy c) m.statics) :
    ∃ v, m.statics.get? c name = some v ∧ k.readStatic x name env m = .ok v m := by
  obtain ⟨f, hf, rfl⟩ := mem_staticFields howner
  obtain ⟨v, hv⟩ := Option.isSome_iff_exists.1 (hfull f hf)
  refine ⟨v, hv, ?_⟩
  rw [readStatic_of_has k howner (Statics.has_of_isSome (hfull f hf)), hv]
  rfl

end

/-- A read of a static field that comes to a value where the class had no entry yet has seen every
initialiser of the class evaluated to a value. All its static fields have a value then and keep one
in every run, and whoever reads such a field gets the value it has. -/
theorem initialisation_finished (n : Nat) (env : Environment) (c : ClassId) :
    (∀ x name m v m', env.hierarchy.staticOwner? x name = some c → m.statics.has c = false →
      (ofFuel n).readStatic x name env m = .ok v m' →
      Initialised (ofFuel n) env c (staticFields env.hierarchy c)
        { m with statics := m.statics.enter c } m' ∧
      Statics.Full c (staticFields env.hierarchy c) m'.statics ∧
      m'.statics.get? c name = some v) ∧
    ∀ m, Statics.Full c (staticFields env.hierarchy c) m.statics →
      RunsLike (Statics.Full c (staticFields env.hierarchy c)) env (ofFuel n) (ofFuel n) m ∧
      ∀ x name, env.hierarchy.staticOwner? x name = some c →
        ∃ v, m.statics.get? c name = some v ∧ (ofFuel n).readStatic x name env m = .ok v m := by
  refine ⟨?_, fun m hm => ⟨(sameAll_self n).runsLike hm,
    fun x name howner => readStatic_of_full _ howner hm⟩⟩
  intro x name m v m' howner hm hread
  have hstatic := staticOwner_eq (ofFuel n) (m := m) howner
  cases hensure : (ofFuel n).ensureStatics c env m with
  | error e m₁ =>
    rw [bind_of_error hensure] at hstatic
    rw [readStatic, bind_of_error hstatic] at hread
    cases hread
  | ok u m₁ =>
    rw [bind_of_ok hensure] at hstatic
    rw [readStatic, bind_of_ok hstatic] at hread
    obtain ⟨hv, hm'⟩ : (m₁.statics.get? c name).getD .null = v ∧ m₁ = m' := by
      cases hread
      exact ⟨rfl, rfl⟩
    subst hm'
    rw [ensureStatics_of_not_has _ hm] at hensure
    have hfull := full_of_ok n (List.filter_subset_self _) (Statics.has_enter _ _) hensure
    obtain ⟨w, hw, -⟩ := readStatic_of_full (ofFuel n) howner hfull
    rw [hw] at hv
    exact ⟨initialised_of_ok hensure, hfull, hw.trans (congrArg some hv)⟩

/-- The read that initialises the class of the fields finishes that. -/
theorem initialisation_finished_entangled :
    Statics.Full ⟨0, 0⟩ (staticFields entangledEnvironment.hierarchy ⟨0, 0⟩)
        [(⟨0, 0⟩, [("early", .null), ("late", .int 2)])] ∧
      ∃ v, Statics.get? [(⟨0, 0⟩, [("early", .null), ("late", .int 2)])] ⟨0, 0⟩ "late" = some v ∧
        (ofFuel 8).readStatic ⟨0, 0⟩ "late" entangledEnvironment
            { statics := [(⟨0, 0⟩, [("early", .null), ("late", .int 2)])] } =
          .ok v { statics := [(⟨0, 0⟩, [("early", .null), ("late", .int 2)])] } := by
  have hall := initialisation_finished 8 entangledEnvironment ⟨0, 0⟩
  have hfull := (hall.1 ⟨0, 0⟩ "late" {} _ _ rfl rfl rfl).2.1
  exact ⟨hfull, (hall.2 { statics := _ } hfull).2 ⟨0, 0⟩ "late" rfl⟩

/-- A class whose first static field cannot be initialised. -/
def broken : TypeDef :=
  { (default : TypeDef) with
    name := "Broken", file := "M.gen"
    fields := [
      ⟨"first", true, some (.staticCall ⟨none, "Broken"⟩ "Fail" []), 1⟩,
      ⟨"second", true, some (.const (.int 2)), 2⟩]
    methods := [{ (default : MethodDef) with
      name := "Fail", isStatic := true, line := 3, body := some [.throw 3 (.const (.str "no"))] }] }

def brokenEnvironment : Environment :=
  { hierarchy := ⟨[], { (default : Image) with types := [broken] }⟩, maxCallDepth := 8 }

/-- Initialisation that an exception cuts short is taken for finished: where the exception is
handled, the second field is read as `null`, though its initialiser was never evaluated. -/
theorem readStatic_after_failure : ∃ m,
    (ofFuel 16).exec (.tryCatch 1 [.expr 1 (.staticField ⟨none, "Broken"⟩ "first")] none [])
        brokenEnvironment {} = .ok .next m ∧
      m.frames.length = 0 ∧ m.statics.get? ⟨0, 0⟩ "second" = none ∧
      (ofFuel 16).readStatic ⟨0, 0⟩ "second" brokenEnvironment m = .ok .null m := by
  obtain ⟨v, info, hthrown⟩ : ∃ v info,
      (ofFuel 15).block [.expr 1 (.staticField ⟨none, "Broken"⟩ "first")] brokenEnvironment {} =
        .error (.thrown v info) { statics := [(⟨0, 0⟩, [])] } := ⟨_, _, rfl⟩
  -- The entry of the class is all that is left where the exception is handled.
  refine ⟨{ statics := [(⟨0, 0⟩, [])] }, ?_, rfl, rfl, rfl⟩
  have hline : Run.setLine 1 brokenEnvironment {} = .ok () {} := rfl
  show (do Run.setLine 1; handle ((ofFuel 15).block _) _ : Run Flow) brokenEnvironment {} = _
  rw [bind_of_ok hline, handle, hthrown]
  rfl

end Evaluator

end GenLang
