import GenLang.Interpreter

/-!
# Computations that agree

Two computations agree where the calls in progress are of some modules if they do the same there,
and leave calls of the same modules behind. A call takes its frame with it, whichever way it ends,
so this holds of all that an interpreter does; what code it finds in a frame depends on the modules
alone. Something may be known of the static fields as well, if it is of a kind that no step undoes.
-/

namespace GenLang

/-- The modules of the calls in progress, the innermost first. -/
def Machine.modules (m : Machine) : List Nat :=
  m.frames.map (·.module)

/-- Knowledge of static fields that lasts: it survives what a step does to them. -/
class Statics.Lasting (S : Statics → Prop) : Prop where
  enter : ∀ {s : Statics} (c : ClassId), S s → S (s.enter c)
  set : ∀ {s : Statics} (c : ClassId) (name : String) (v : Value), S s → S (s.set c name v)

instance : Statics.Lasting fun _ => True :=
  ⟨fun _ _ => trivial, fun _ _ _ _ => trivial⟩

/-- What is known of a machine: the modules of its calls in progress, and something about its static
fields. -/
structure Machine.At (S : Statics → Prop) (ms : List Nat) (m : Machine) : Prop where
  modules : m.modules = ms
  statics : S m.statics

/-- The state that is left. -/
def Run.final {α : Type} : EStateM.Result Stop Machine α → Machine
  | .ok _ m => m
  | .error _ m => m

variable {α β : Type} {env : Environment} {S : Statics → Prop} {ms : List Nat}

theorem Machine.At.of_eq {m m' : Machine} (h : m.At S ms) (hmodules : m'.modules = m.modules)
    (hstatics : m'.statics = m.statics) : m'.At S ms :=
  ⟨hmodules.trans h.modules, hstatics ▸ h.statics⟩

def Agrees (env : Environment) (S : Statics → Prop) (ms : List Nat) (x y : Run α) : Prop :=
  ∀ m : Machine, m.At S ms → x env m = y env m ∧ (Run.final (y env m)).At S ms

/-- Calls in progress keep their modules, and what is known of static fields stays true. -/
abbrev Keeps (env : Environment) (S : Statics → Prop) (ms : List Nat) (x : Run α) : Prop :=
  Agrees env S ms x x

theorem bind_of_ok {x : Run α} {f : α → Run β} {m m' : Machine} {a : α}
    (hx : x env m = .ok a m') : (x >>= f) env m = f a env m' := by
  show EStateM.bind (x env) (fun a => f a env) m = _
  rw [EStateM.bind, hx]

theorem bind_of_error {x : Run α} {f : α → Run β} {m m' : Machine} {e : Stop}
    (hx : x env m = .error e m') : (x >>= f) env m = .error e m' := by
  show EStateM.bind (x env) (fun a => f a env) m = _
  rw [EStateM.bind, hx]

theorem agrees_bind {x y : Run α} {f g : α → Run β} (hx : Agrees env S ms x y)
    (hf : ∀ a, Agrees env S ms (f a) (g a)) : Agrees env S ms (x >>= f) (y >>= g) := by
  intro m hm
  obtain ⟨heq, hkeep⟩ := hx m hm
  cases hy : y env m with
  | ok a m' =>
    rw [hy] at heq hkeep
    rw [bind_of_ok heq, bind_of_ok hy]
    exact hf a m' hkeep
  | error e m' =>
    rw [hy] at heq hkeep
    rw [bind_of_error heq, bind_of_error hy]
    exact ⟨rfl, hkeep⟩

theorem agrees_pure (a : α) : Keeps env S ms (pure a) :=
  fun _ hm => ⟨rfl, hm⟩

theorem agrees_throw (e : Stop) : Keeps env S ms (throw e : Run α) :=
  fun _ hm => ⟨rfl, hm⟩

theorem agrees_read : Keeps env S ms (read : Run Environment) :=
  fun _ hm => ⟨rfl, hm⟩

/-- The environment is known all along. -/
theorem agrees_bind_read {f g : Environment → Run β} (h : Agrees env S ms (f env) (g env)) :
    Agrees env S ms (read >>= f) (read >>= g) :=
  h

theorem agrees_get : Keeps env S ms (get : Run Machine) :=
  fun _ hm => ⟨rfl, hm⟩

theorem agrees_modify {f : Machine → Machine} (hf : ∀ m : Machine, m.At S ms → (f m).At S ms) :
    Keeps env S ms (modify f : Run Unit) :=
  fun m hm => ⟨rfl, hf m hm⟩

theorem agrees_modifyGet {f : Machine → α × Machine}
    (hf : ∀ m : Machine, m.At S ms → (f m).2.At S ms) : Keeps env S ms (modifyGet f : Run α) :=
  fun m hm => ⟨rfl, hf m hm⟩

/-- As many values are found as are looked for. -/
theorem agrees_bind_mapM {f g : α → Run β} {as : List α} {γ : Type} {r s : List β → Run γ}
    (h : ∀ a ∈ as, Agrees env S ms (f a) (g a))
    (hrest : ∀ bs, bs.length = as.length → Agrees env S ms (r bs) (s bs)) :
    Agrees env S ms (as.mapM f >>= r) (as.mapM g >>= s) := by
  induction as generalizing r s with
  | nil =>
    rw [List.mapM_nil, List.mapM_nil, pure_bind, pure_bind]
    exact hrest [] rfl
  | cons a as ih =>
    rw [List.mapM_cons, List.mapM_cons, bind_assoc, bind_assoc]
    apply agrees_bind (h a List.mem_cons_self)
    intro b
    rw [bind_assoc, bind_assoc]
    apply ih fun a' ha' => h a' (List.mem_cons_of_mem a ha')
    intro bs hbs
    rw [pure_bind, pure_bind]
    exact hrest (b :: bs) (congrArg (· + 1) hbs)

theorem agrees_mapM {f g : α → Run β} {as : List α} (h : ∀ a ∈ as, Agrees env S ms (f a) (g a)) :
    Agrees env S ms (as.mapM f) (as.mapM g) := by
  rw [← bind_pure (as.mapM f), ← bind_pure (as.mapM g)]
  exact agrees_bind_mapM h fun bs _ => agrees_pure bs

/-! ## Steps of the machine -/

theorem agrees_hierarchy : Keeps env S ms Run.hierarchy :=
  agrees_bind agrees_read fun _ => agrees_pure _

theorem agrees_bind_hierarchy {f g : Hierarchy → Run β}
    (h : Agrees env S ms (f env.hierarchy) (g env.hierarchy)) :
    Agrees env S ms (Run.hierarchy >>= f) (Run.hierarchy >>= g) :=
  h

theorem agrees_heap : Keeps env S ms Run.heap :=
  agrees_bind agrees_get fun _ => agrees_pure _

theorem agrees_modifyHeap (f : Heap → Heap) : Keeps env S ms (Run.modifyHeap f) :=
  agrees_modify fun _ hm => hm.of_eq rfl rfl

theorem agrees_allocate (place : Heap → Value × Heap) : Keeps env S ms (Run.allocate place) :=
  agrees_modifyGet fun _ hm => hm.of_eq rfl rfl

theorem Machine.poll_frames (m : Machine) : m.poll.2.frames = m.frames :=
  rfl

theorem Machine.At.poll {m : Machine} (h : m.At S ms) : m.poll.2.At S ms :=
  h.of_eq rfl rfl

theorem agrees_pollCancelled : Keeps env S ms Run.pollCancelled :=
  agrees_modifyGet fun _ hm => hm.poll

theorem agrees_checkCancelled : Keeps env S ms Run.checkCancelled := by
  refine agrees_bind agrees_pollCancelled fun cancelled => ?_
  split
  · exact agrees_throw _
  · exact agrees_pure _

theorem agrees_trace : Keeps env S ms Run.trace :=
  agrees_bind agrees_get fun _ => agrees_pure _

theorem agrees_faultValue (f : Fault) : Keeps env S ms (Run.faultValue f) := by
  refine agrees_bind agrees_hierarchy fun h => ?_
  split
  · exact agrees_allocate _
  · exact agrees_pure _

theorem agrees_stopOf (f : Fault) : Keeps env S ms (Run.stopOf f) := by
  have hthrown : Keeps env S ms (do
      let v ← Run.faultValue f
      return .thrown v ⟨f.name, f.message, ← Run.trace⟩ : Run Stop) := by
    refine agrees_bind (agrees_faultValue f) fun v => ?_
    exact agrees_bind agrees_trace fun _ => agrees_pure _
  unfold Run.stopOf
  dsimp only
  split
  · refine agrees_bind agrees_pollCancelled fun cancelled => ?_
    split
    · exact agrees_pure _
    · exact hthrown
  · exact hthrown

/-- Nothing runs behind a fault. -/
theorem raise_bind (f : Fault) (g : α → Run β) :
    (Run.raise f : Run α) >>= g = Run.raise f := by
  funext env machine
  unfold Run.raise
  cases hstop : Run.stopOf f env machine with
  | ok e machine' =>
    rw [bind_of_ok hstop]
    exact bind_of_error (bind_of_ok hstop)
  | error e machine' =>
    rw [bind_of_error hstop]
    exact bind_of_error (bind_of_error hstop)

theorem agrees_raise (f : Fault) : Keeps env S ms (Run.raise f : Run α) :=
  agrees_bind (agrees_stopOf f) fun _ => agrees_throw _

/-- After a fault it does not matter what comes. -/
theorem agrees_bind_raise (f : Fault) {g g' : α → Run β} :
    Agrees env S ms (Run.raise f >>= g) (Run.raise f >>= g') := by
  rw [raise_bind, raise_bind]
  exact agrees_raise f

/-- A check that raises a fault before the rest. -/
theorem agrees_raiseIf {p : Prop} [Decidable p] {f : Fault} {x y : Run α}
    (h : Agrees env S ms x y) :
    Agrees env S ms (if p then (Run.raise f : Run PUnit) >>= fun _ => x else x)
      (if p then (Run.raise f : Run PUnit) >>= fun _ => y else y) := by
  split
  · exact agrees_bind (agrees_raise f) fun _ => h
  · exact h

theorem agrees_ofExcept (x : Except Fault α) : Keeps env S ms (Run.ofExcept x) := by
  cases x with
  | ok a => exact agrees_pure a
  | error f => exact agrees_raise f

theorem agrees_modifyFrame {f : Frame → Frame} (hf : ∀ frame, (f frame).module = frame.module) :
    Keeps env S ms (Run.modifyFrame f) := by
  refine agrees_modify fun m hm => ?_
  obtain ⟨heap, statics, frames, console, patience, output, hints, parked⟩ := m
  cases frames with
  | nil => exact hm
  | cons frame rest => exact hm.of_eq (by simp [Machine.modules, hf]) rfl

theorem agrees_setLine (line : Nat) : Keeps env S ms (Run.setLine line) :=
  agrees_modifyFrame fun _ => rfl

theorem agrees_setLocal (slot : Nat) (v : Value) : Keeps env S ms (Run.setLocal slot v) := by
  refine agrees_modifyFrame fun frame => ?_
  rw [Frame.setLocal]
  split <;> rfl

theorem agrees_getLocal (slot : Nat) : Keeps env S ms (Run.getLocal slot) :=
  agrees_bind agrees_get fun _ => agrees_pure _

theorem agrees_getThis : Keeps env S ms Run.getThis :=
  agrees_bind agrees_get fun _ => agrees_pure _

theorem currentModule_eq {m : Machine} (hm : m.modules = ms) :
    Run.currentModule env m = .ok (ms.headD env.hierarchy.mainIndex) m := by
  subst hm
  obtain ⟨heap, statics, frames⟩ := m
  cases frames <;> rfl

theorem agrees_currentModule : Keeps env S ms Run.currentModule := by
  intro m hm
  rw [currentModule_eq hm.modules]
  exact ⟨rfl, hm⟩

/-- The module of the code that runs is known from the calls in progress. -/
theorem agrees_bind_currentModule {f g : Nat → Run β}
    (h : Agrees env S ms (f (ms.headD env.hierarchy.mainIndex))
      (g (ms.headD env.hierarchy.mainIndex))) :
    Agrees env S ms (Run.currentModule >>= f) (Run.currentModule >>= g) := by
  intro m hm
  rw [bind_of_ok (currentModule_eq hm.modules), bind_of_ok (currentModule_eq hm.modules)]
  exact h m hm

theorem agrees_resolve (t : TypeRef) : Keeps env S ms (Run.resolve t) := by
  refine agrees_bind agrees_hierarchy fun h => agrees_bind agrees_currentModule fun m => ?_
  split
  · exact agrees_pure _
  · exact agrees_raise _

/-- A class that a reference of the running code stands for. -/
theorem agrees_bind_resolve {t : TypeRef} {f g : ClassId → Run β}
    (h : ∀ c, env.hierarchy.resolve? (ms.headD env.hierarchy.mainIndex) t = some c →
      Agrees env S ms (f c) (g c)) :
    Agrees env S ms (Run.resolve t >>= f) (Run.resolve t >>= g) := by
  unfold Run.resolve
  rw [bind_assoc, bind_assoc]
  apply agrees_bind_hierarchy
  rw [bind_assoc, bind_assoc]
  apply agrees_bind_currentModule
  split
  · rename_i c hc
    rw [pure_bind, pure_bind]
    exact h c hc
  · exact agrees_bind_raise _

/-- What a frame of its own is for is done among the calls of one more module. -/
theorem agrees_inFrame {f : Frame} {x y : Run α} (h : Agrees env S (f.module :: ms) x y) :
    Agrees env S ms (Run.inFrame f x) (Run.inFrame f y) := by
  intro m hm
  have hframes : ({ m with frames := f :: m.frames } : Machine).At S (f.module :: ms) :=
    ⟨congrArg (f.module :: ·) hm.modules, hm.statics⟩
  obtain ⟨heq, hkeep⟩ := h _ hframes
  simp only [Run.inFrame, heq]
  cases hy : y env { m with frames := f :: m.frames } with
  | ok a m' | error e m' =>
    rw [hy] at hkeep
    refine ⟨trivial, ?_, hkeep.statics⟩
    show m'.frames.tail.map (·.module) = ms
    rw [List.map_tail]
    exact congrArg List.tail hkeep.modules

theorem agrees_handle {x y : Run Flow} {f g : Value → Run Flow} (hx : Agrees env S ms x y)
    (hf : ∀ v, Agrees env S ms (f v) (g v)) :
    Agrees env S ms (Evaluator.handle x f) (Evaluator.handle y g) := by
  intro m hm
  obtain ⟨heq, hkeep⟩ := hx m hm
  simp only [Evaluator.handle, heq]
  cases hy : y env m with
  | ok a m' =>
    rw [hy] at hkeep
    exact ⟨rfl, hkeep⟩
  | error e m' =>
    rw [hy] at hkeep
    cases e with
    | cancelled | outOfFuel => exact ⟨rfl, hkeep⟩
    | thrown v info =>
      -- No calls are left over that would have to be dropped.
      have hdepth : m'.frames.length - m.frames.length = 0 := by
        have hlength := congrArg List.length (hkeep.modules.trans hm.modules.symm)
        rw [Run.final, Machine.modules, Machine.modules, List.length_map, List.length_map]
          at hlength
        omega
      dsimp only
      rw [hdepth, List.drop_zero]
      exact hf v m' hkeep

end GenLang
