import Mathlib.Order.Defs.Unbundled
import GenLang.Proofs.Running.Agreement

/-!
# The calls in progress

What is evaluated leaves the calls in progress as it found them, whichever way it ends: every frame
that is pushed is popped again, also where an exception passes. Only a statement changes something,
the line and the locals of the innermost call. Nothing stays parked, either.
-/

namespace GenLang

/-- The innermost call may be at another line and have other locals. -/
inductive Stirred : List Frame → List Frame → Prop
  | empty : Stirred [] []
  | top (f : Frame) (line : Nat) (locals : Array Value) (rest : List Frame) :
      Stirred (f :: rest) ({ f with line, locals } :: rest)

theorem Stirred.refl (fs : List Frame) : Stirred fs fs := by
  cases fs with
  | nil => exact .empty
  | cons f rest => exact .top f f.line f.locals rest

theorem Stirred.trans {fs gs hs : List Frame} (h : Stirred fs gs) (h' : Stirred gs hs) :
    Stirred fs hs := by
  cases h with
  | empty => exact h'
  | top f line locals rest =>
    cases h' with
    | top _ line' locals' => exact .top f line' locals' rest

instance : IsPreorder (List Frame) Stirred where
  refl := Stirred.refl
  trans _ _ _ := Stirred.trans

theorem Stirred.length_eq {fs gs : List Frame} (h : Stirred fs gs) : gs.length = fs.length := by
  cases h <;> rfl

theorem Stirred.tail_eq {fs gs : List Frame} (h : Stirred fs gs) : gs.tail = fs.tail := by
  cases h <;> rfl

/-- What is left of a machine: the calls in progress are as `F` says, and nothing new is parked. -/
structure Machine.Leaves (F : List Frame → List Frame → Prop) (m m' : Machine) : Prop where
  frames : F m.frames m'.frames
  parked : m.parked = none → m'.parked = none

/-- A computation leaves every machine so. -/
def Leaves {α : Type} (F : List Frame → List Frame → Prop) (env : Environment) (x : Run α) : Prop :=
  ∀ m : Machine, m.Leaves F (Run.final (x env m))

variable {α β : Type} {F : List Frame → List Frame → Prop} [IsPreorder (List Frame) F]
  {env : Environment}

namespace Machine.Leaves

theorem refl (m : Machine) : m.Leaves F m :=
  ⟨refl_of F m.frames, id⟩

theorem trans {m m' m'' : Machine} (h : m.Leaves F m') (h' : m'.Leaves F m'') : m.Leaves F m'' :=
  ⟨trans_of F h.frames h'.frames, h'.parked ∘ h.parked⟩

theorem of_eq {m m' : Machine} (hframes : m'.frames = m.frames)
    (hparked : m.parked = none → m'.parked = none) : m.Leaves F m' :=
  ⟨hframes ▸ refl_of F m.frames, hparked⟩

theorem mono {m m' : Machine} (h : m.Leaves Eq m') : m.Leaves F m' :=
  .of_eq h.frames.symm h.parked

theorem poll (m : Machine) : m.Leaves F m.poll.2 :=
  .of_eq rfl id

end Machine.Leaves

/-! ## Steps of the machine -/

omit [IsPreorder (List Frame) F] in
theorem leaves_modify {f : Machine → Machine} (hf : ∀ m : Machine, m.Leaves F (f m)) :
    Leaves F env (modify f : Run Unit) :=
  hf

omit [IsPreorder (List Frame) F] in
theorem leaves_modifyGet {f : Machine → α × Machine} (hf : ∀ m : Machine, m.Leaves F (f m).2) :
    Leaves F env (modifyGet f : Run α) :=
  hf

/-- What leaves the calls in progress alone fits everywhere. -/
theorem Leaves.mono {x : Run α} (h : Leaves Eq env x) : Leaves F env x :=
  fun m => (h m).mono

theorem leaves_pure (a : α) : Leaves F env (pure a) :=
  fun m => .refl m

theorem leaves_throw (e : Stop) : Leaves F env (throw e : Run α) :=
  fun m => .refl m

theorem leaves_read : Leaves F env (read : Run Environment) :=
  fun m => .refl m

theorem leaves_get : Leaves F env (get : Run Machine) :=
  fun m => .refl m

theorem leaves_bind {x : Run α} {f : α → Run β} (hx : Leaves F env x)
    (hf : ∀ a, Leaves F env (f a)) : Leaves F env (x >>= f) := by
  intro m
  have hm := hx m
  -- Behind a stop nothing runs any more.
  cases h : x env m with
  | ok a m' =>
    rw [h] at hm
    rw [bind_of_ok h]
    exact hm.trans (hf a m')
  | error e m' =>
    rw [h] at hm
    rw [bind_of_error h]
    exact hm

theorem leaves_mapM {f : α → Run β} (hf : ∀ a, Leaves F env (f a)) (as : List α) :
    Leaves F env (as.mapM f) := by
  induction as with
  | nil =>
    rw [List.mapM_nil]
    exact leaves_pure []
  | cons a as ih =>
    rw [List.mapM_cons]
    refine leaves_bind (hf a) fun b => ?_
    exact leaves_bind ih fun bs => leaves_pure _

theorem leaves_hierarchy : Leaves F env Run.hierarchy :=
  leaves_bind leaves_read fun _ => leaves_pure _

theorem leaves_heap : Leaves F env Run.heap :=
  leaves_bind leaves_get fun _ => leaves_pure _

theorem leaves_modifyHeap (f : Heap → Heap) : Leaves F env (Run.modifyHeap f) :=
  leaves_modify fun _ => .of_eq rfl id

theorem leaves_allocate (place : Heap → Value × Heap) : Leaves F env (Run.allocate place) :=
  leaves_modifyGet fun _ => .of_eq rfl id

theorem leaves_pollCancelled : Leaves F env Run.pollCancelled :=
  leaves_modifyGet Machine.Leaves.poll

theorem leaves_checkCancelled : Leaves F env Run.checkCancelled := by
  refine leaves_bind leaves_pollCancelled fun cancelled => ?_
  split
  · exact leaves_throw _
  · exact leaves_pure _

theorem leaves_trace : Leaves F env Run.trace :=
  leaves_bind leaves_get fun _ => leaves_pure _

theorem leaves_faultValue (f : Fault) : Leaves F env (Run.faultValue f) := by
  refine leaves_bind leaves_hierarchy fun h => ?_
  split
  · exact leaves_allocate _
  · exact leaves_pure _

theorem leaves_stopOf (f : Fault) : Leaves F env (Run.stopOf f) := by
  have hthrown : Leaves F env (do
      let v ← Run.faultValue f
      return .thrown v ⟨f.name, f.message, ← Run.trace⟩ : Run Stop) := by
    refine leaves_bind (leaves_faultValue f) fun v => ?_
    exact leaves_bind leaves_trace fun _ => leaves_pure _
  unfold Run.stopOf
  dsimp only
  split
  · refine leaves_bind leaves_pollCancelled fun cancelled => ?_
    split
    · exact leaves_pure _
    · exact hthrown
  · exact hthrown

theorem leaves_raise (f : Fault) : Leaves F env (Run.raise f : Run α) :=
  leaves_bind (leaves_stopOf f) fun _ => leaves_throw _

/-- A check that raises a fault before the rest. -/
theorem leaves_raiseIf {p : Prop} [Decidable p] {f : Fault} {x : Run α} (h : Leaves F env x) :
    Leaves F env (if p then (Run.raise f : Run PUnit) >>= fun _ => x else x) := by
  split
  · exact leaves_bind (leaves_raise f) fun _ => h
  · exact h

theorem leaves_ofExcept (x : Except Fault α) : Leaves F env (Run.ofExcept x) := by
  cases x with
  | ok a => exact leaves_pure a
  | error f => exact leaves_raise f

theorem leaves_getLocal (slot : Nat) : Leaves F env (Run.getLocal slot) :=
  leaves_bind leaves_get fun _ => leaves_pure _

theorem leaves_getThis : Leaves F env Run.getThis :=
  leaves_bind leaves_get fun _ => leaves_pure _

theorem leaves_currentModule : Leaves F env Run.currentModule := by
  refine leaves_bind leaves_get fun m => ?_
  split
  · exact leaves_pure _
  · exact leaves_bind leaves_hierarchy fun _ => leaves_pure _

theorem leaves_resolve (t : TypeRef) : Leaves F env (Run.resolve t) := by
  refine leaves_bind leaves_hierarchy fun h => leaves_bind leaves_currentModule fun m => ?_
  split
  · exact leaves_pure _
  · exact leaves_raise _

/-! ## Frames -/

theorem leaves_modifyFrame {f : Frame → Frame}
    (hf : ∀ frame, ∃ line locals, f frame = { frame with line, locals }) :
    Leaves Stirred env (Run.modifyFrame f) := by
  refine leaves_modify fun m => ?_
  obtain ⟨heap, statics, frames, console, patience, output, hints, parked⟩ := m
  cases frames with
  | nil => exact .refl _
  | cons frame rest =>
    obtain ⟨line, locals, hframe⟩ := hf frame
    refine ⟨?_, id⟩
    dsimp only
    rw [hframe]
    exact .top frame line locals rest

theorem leaves_setLine (line : Nat) : Leaves Stirred env (Run.setLine line) :=
  leaves_modifyFrame fun frame => ⟨line, frame.locals, rfl⟩

theorem leaves_setLocal (slot : Nat) (v : Value) : Leaves Stirred env (Run.setLocal slot v) := by
  refine leaves_modifyFrame fun frame => ?_
  unfold Frame.setLocal
  split <;> exact ⟨frame.line, _, rfl⟩

/-- A frame of its own is popped again, whatever became of its line and locals. -/
theorem leaves_inFrame {f : Frame} {x : Run α} (h : Leaves Stirred env x) :
    Leaves F env (Run.inFrame f x) := by
  intro m
  obtain ⟨hframes, hparked⟩ := h { m with frames := f :: m.frames }
  unfold Run.inFrame
  cases hx : x env { m with frames := f :: m.frames } with
  | ok a m' | error e m' =>
    rw [hx] at hframes hparked
    exact .of_eq hframes.tail_eq hparked

/-- A handler finds the calls in progress that there were before the body. -/
theorem leaves_handle {body : Run Flow} {handler : Value → Run Flow}
    (hbody : Leaves Stirred env body) (hhandler : ∀ v, Leaves Stirred env (handler v)) :
    Leaves Stirred env (Evaluator.handle body handler) := by
  intro m
  have hm := hbody m
  unfold Evaluator.handle
  cases hx : body env m with
  | ok flow m' =>
    rw [hx] at hm
    exact hm
  | error e m' =>
    rw [hx] at hm
    cases e with
    | cancelled | outOfFuel => exact hm
    | thrown v info =>
      -- The body has left no frame of its own behind, so none is dropped.
      have hlength : m'.frames.length - m.frames.length = 0 := by
        rw [show m'.frames.length = m.frames.length from hm.frames.length_eq, Nat.sub_self]
      dsimp only
      rw [hlength, List.drop_zero]
      exact hm.trans (hhandler v m')

/-! ## Native code -/

/-- Evaluation that leaves the calls in progress so. -/
structure Evaluator.Balanced (env : Environment) (k : Evaluator) : Prop where
  eval : ∀ e, Leaves Eq env (k.eval e)
  exec : ∀ s, Leaves Stirred env (k.exec s)
  display : ∀ v, Leaves Eq env (k.display v)

namespace Evaluator.Balanced

variable {k : Evaluator} (hk : Balanced env k)

include hk

/-- By induction on what native code asks for: it reaches no frame. -/
theorem run_code (code : NativeCode α) (m : Machine) :
    match code.run k env m with
    | .ok _ m' | .error _ m' => m'.frames = m.frames := by
  induction code generalizing m with
  | done | fail => rfl
  | ask next ih => exact ih env m
  | look next ih => exact ih m.outside m
  | change update next ih => exact ih (m.changeOutside update)
  | allocate place next ih => exact ih _ (m.allocate place).2
  | poll next ih =>
    -- Polling may use up patience, but no frame.
    have hrest := ih m.poll.1 m.poll.2
    rw [m.poll_frames] at hrest
    exact hrest
  | display v next ih =>
    have hdisplay := (hk.display v m).frames
    unfold NativeCode.run
    cases hv : k.display v env m with
    | ok text m' =>
      have hrest := ih text m'
      rw [hv] at hdisplay
      rw [← show m.frames = m'.frames from hdisplay] at hrest
      exact hrest
    | error stop m' =>
      rw [hv] at hdisplay
      exact hdisplay.symm

theorem enter (code : NativeCode Value) : Leaves F env (k.enter code) := by
  intro m
  have hcode := hk.run_code code m.unpark
  unfold Evaluator.enter
  split
  · next hrun =>
    rw [hrun] at hcode
    exact .of_eq hcode fun _ => rfl
  · next f m' hrun =>
    rw [hrun] at hcode
    -- Raising the fault puts its exception on the heap, with nothing parked.
    split
    · exact .of_eq hcode fun _ => rfl
    · next hparked =>
      have hm' : m.Leaves F m' := .of_eq hcode fun _ => hparked
      exact hm'.trans (leaves_raise f m')

/-! ## Calls -/

theorem block (ss : List Image.Stmt) : Leaves Stirred env (k.block ss) := by
  induction ss with
  | nil => exact leaves_pure _
  | cons s ss ih =>
    unfold Evaluator.block
    refine leaves_bind (hk.exec s) fun flow => ?_
    split
    · exact ih
    · exact leaves_pure _

omit hk in
theorem callResult (m : MethodDef) (flow : Flow) : Leaves F env (Evaluator.callResult m flow) := by
  unfold Evaluator.callResult
  dsimp only
  split
  · exact leaves_pure _
  · exact leaves_allocate _
  · exact leaves_pure _

theorem call (declaring : ClassId) (m : MethodDef) (this : Option Value) (args : List Value) :
    Leaves Eq env (k.call declaring m this args) := by
  unfold Evaluator.call
  refine leaves_bind leaves_checkCancelled fun _ => leaves_raiseIf ?_
  refine leaves_bind leaves_read fun e => ?_
  dsimp only
  split
  · split
    · exact hk.enter _
    · exact leaves_raise _
  · split
    · exact leaves_raise _
    · refine leaves_bind leaves_get fun _ => leaves_raiseIf ?_
      exact leaves_bind (leaves_inFrame (hk.block _)) fun flow => callResult m flow

theorem callStatic (c : ClassId) (name : String) (args : List Value) :
    Leaves Eq env (k.callStatic c name args) := by
  unfold Evaluator.callStatic
  refine leaves_bind leaves_hierarchy fun h => ?_
  split
  · split
    · exact hk.call _ _ _ _
    · exact leaves_raise _
  · exact leaves_raise _

theorem callValue (target : Value) (name : String) (args : List Value) :
    Leaves Eq env (k.callValue target name args) := by
  unfold Evaluator.callValue
  split
  · exact leaves_raise _
  · refine leaves_bind leaves_heap fun heap => leaves_bind leaves_hierarchy fun h => ?_
    split
    · split
      · exact leaves_raise _
      · exact hk.call _ _ _ _
    · exact hk.enter _
  · refine leaves_bind leaves_checkCancelled fun _ => leaves_bind leaves_heap fun heap => ?_
    exact hk.enter _
  · exact hk.callStatic _ _ _
  · exact hk.enter _

/-! ## Objects and static fields -/

theorem initFields (h : Hierarchy) (address : Nat) (fields : List (ClassId × FieldDef)) :
    Leaves Eq env (k.initFields h address fields) := by
  induction fields with
  | nil => exact leaves_pure _
  | cons p rest ih =>
    obtain ⟨owner, f⟩ := p
    unfold Evaluator.initFields
    split
    · refine leaves_bind (leaves_inFrame (hk.eval _).mono) fun v => ?_
      exact leaves_bind (leaves_modifyHeap _) fun _ => ih
    · exact ih

theorem construct (c : ClassId) (args : List Value) : Leaves Eq env (k.construct c args) := by
  unfold Evaluator.construct
  refine leaves_bind leaves_checkCancelled fun _ => leaves_bind leaves_hierarchy fun h => ?_
  dsimp only
  refine leaves_raiseIf (leaves_bind (leaves_allocate _) fun this => ?_)
  -- The constructor runs behind the initialisers, whether or not the object has fields.
  have hcall (declaring : ClassId) (m : MethodDef) : Leaves Eq env (do
      let _ ← k.call declaring m (some this) args
      return this) :=
    leaves_bind (hk.call _ _ _ _) fun _ => leaves_pure _
  cases (h.findMethod? c "init").filter (!·.2.isStatic) with
  | none =>
    split
    · exact leaves_bind (hk.initFields _ _ _) fun _ => leaves_raiseIf (leaves_pure _)
    · exact leaves_raiseIf (leaves_pure _)
  | some p =>
    obtain ⟨declaring, m⟩ := p
    split
    · exact leaves_bind (hk.initFields _ _ _) fun _ => hcall declaring m
    · exact hcall declaring m

theorem initStatics (h : Hierarchy) (c : ClassId) (fields : List FieldDef) :
    Leaves Eq env (k.initStatics h c fields) := by
  induction fields with
  | nil => exact leaves_pure _
  | cons f rest ih =>
    have hset (v : Value) : Leaves Eq env (do
        modify fun m => { m with statics := m.statics.set c f.name v }
        k.initStatics h c rest) :=
      leaves_bind (leaves_modify fun _ => .of_eq rfl id) fun _ => ih
    unfold Evaluator.initStatics
    split
    · exact leaves_bind (leaves_inFrame (hk.eval _).mono) hset
    · exact hset _

theorem ensureStatics (c : ClassId) : Leaves Eq env (k.ensureStatics c) := by
  unfold Evaluator.ensureStatics
  refine leaves_bind leaves_get fun m => ?_
  split
  · exact leaves_pure _
  · refine leaves_bind (leaves_modify fun _ => .of_eq rfl id) fun _ => ?_
    exact leaves_bind leaves_hierarchy fun h => hk.initStatics _ _ _

theorem staticOwner (c : ClassId) (name : String) : Leaves Eq env (k.staticOwner c name) := by
  unfold Evaluator.staticOwner
  refine leaves_bind leaves_hierarchy fun h => ?_
  split
  · exact leaves_bind (hk.ensureStatics _) fun _ => leaves_pure _
  · exact leaves_raise _

theorem readStatic (c : ClassId) (name : String) : Leaves Eq env (k.readStatic c name) := by
  unfold Evaluator.readStatic
  refine leaves_bind (hk.staticOwner c name) fun owner => ?_
  exact leaves_bind leaves_get fun _ => leaves_pure _

theorem writeStatic (c : ClassId) (name : String) (v : Value) :
    Leaves Eq env (k.writeStatic c name v) := by
  unfold Evaluator.writeStatic
  refine leaves_bind (hk.staticOwner c name) fun owner => ?_
  exact leaves_modify fun _ => .of_eq rfl id

omit hk in
theorem hostMember (object : HostObject) (name : String) :
    Leaves F env (Evaluator.hostMember object name) := by
  unfold Evaluator.hostMember
  split
  case h_10 =>
    refine leaves_bind leaves_read fun e => ?_
    split <;> exact leaves_allocate _
  all_goals first | exact leaves_pure _ | exact leaves_allocate _ | exact leaves_raise _

theorem getMember (target : Value) (name : String) : Leaves Eq env (k.getMember target name) := by
  unfold Evaluator.getMember
  split
  · exact leaves_raise _
  · refine leaves_bind leaves_heap fun heap => ?_
    dsimp only
    split
    · exact leaves_pure _
    · exact leaves_raise _
  · exact leaves_bind leaves_heap fun _ => hostMember _ _
  · exact hk.readStatic _ _
  · exact leaves_bind leaves_heap fun _ => leaves_ofExcept _

theorem setMember (target : Value) (name : String) (v : Value) :
    Leaves Eq env (k.setMember target name v) := by
  unfold Evaluator.setMember
  split
  · exact leaves_raise _
  · refine leaves_bind leaves_heap fun heap => ?_
    dsimp only
    split
    · exact leaves_modifyHeap _
    · exact leaves_raise _
  · exact hk.writeStatic _ _ _
  · exact leaves_bind leaves_heap fun _ => leaves_raise _

/-! ## Texts and exceptions -/

theorem displayValue (v : Value) : Leaves Eq env (k.displayValue v) := by
  unfold Evaluator.displayValue
  split
  · refine leaves_bind leaves_heap fun heap => leaves_bind leaves_hierarchy fun h => ?_
    split
    · split
      · refine leaves_bind (hk.call _ _ _ _) fun text => ?_
        exact leaves_bind leaves_heap fun _ => leaves_pure _
      · exact leaves_pure _
    · exact leaves_pure _
  · refine leaves_bind leaves_heap fun heap => ?_
    exact leaves_bind (leaves_mapM hk.display _) fun _ => leaves_pure _
  · exact leaves_bind leaves_heap fun _ => leaves_pure _

theorem describe (v : Value) : Leaves Eq env (k.describe v) := by
  unfold Evaluator.describe
  refine leaves_bind leaves_hierarchy fun h => ?_
  split
  · refine leaves_bind leaves_heap fun heap => ?_
    dsimp only
    split
    · exact leaves_bind (hk.display _) fun _ => leaves_pure _
    · exact leaves_bind (hk.display _) fun _ => leaves_pure _
  · exact leaves_bind (hk.display _) fun _ => leaves_pure _

theorem throwValue (v : Value) : Leaves Eq env (k.throwValue v : Run α) := by
  unfold Evaluator.throwValue
  split
  · exact leaves_raise _
  · refine leaves_bind (hk.describe v) fun d => ?_
    exact leaves_bind leaves_trace fun _ => leaves_throw _

/-! ## Expressions -/

theorem binary (op : BinaryOp) (a b : Image.Expr) : Leaves Eq env (k.binary op a b) := by
  unfold Evaluator.binary
  refine leaves_bind (hk.eval a) fun left => ?_
  split
  · exact leaves_pure _
  split
  · exact leaves_pure _
  refine leaves_bind (hk.eval b) fun right => ?_
  split
  · refine leaves_bind (hk.display _) fun _ => leaves_bind (hk.display _) fun _ => ?_
    exact leaves_pure _
  · refine leaves_bind leaves_heap fun heap => leaves_bind (leaves_ofExcept _) fun result => ?_
    exact leaves_bind (leaves_modifyHeap _) fun _ => leaves_pure _

theorem evalExpr (e : Image.Expr) : Leaves Eq env (k.evalExpr e) := by
  have hargs (es : List Image.Expr) : Leaves Eq env (es.mapM k.eval) := leaves_mapM hk.eval es
  unfold Evaluator.evalExpr
  -- Calls restore the frames they find; nothing else in an expression touches them.
  cases e with
  | const c => exact leaves_pure _
  | slot slot => exact leaves_getLocal _
  | self => exact leaves_getThis
  | type t => exact leaves_bind (leaves_resolve _) fun _ => leaves_pure _
  | list items => exact leaves_bind (hargs items) fun _ => leaves_allocate _
  | new t args =>
    refine leaves_bind (leaves_resolve _) fun c => ?_
    exact leaves_bind (hargs args) fun _ => hk.construct _ _
  | field target name => exact leaves_bind (hk.eval target) fun _ => hk.getMember _ _
  | staticField owner name => exact leaves_bind (leaves_resolve _) fun _ => hk.readStatic _ _
  | call target method args =>
    refine leaves_bind (hk.eval target) fun v => ?_
    exact leaves_bind (hargs args) fun _ => hk.callValue _ _ _
  | staticCall owner method args =>
    refine leaves_bind (leaves_resolve _) fun c => ?_
    exact leaves_bind (hargs args) fun _ => hk.callStatic _ _ _
  | index target i =>
    refine leaves_bind (hk.eval target) fun v => leaves_bind (hk.eval i) fun n => ?_
    exact leaves_bind leaves_heap fun _ => leaves_ofExcept _
  | unary op operand =>
    refine leaves_bind (hk.eval operand) fun v => ?_
    exact leaves_bind leaves_heap fun _ => leaves_ofExcept _
  | binary op a b => exact hk.binary op a b
  | await operand =>
    refine leaves_bind (hk.eval operand) fun v => ?_
    split
    · exact leaves_bind leaves_heap fun _ => leaves_pure _
    · exact leaves_pure _

/-! ## Statements -/

theorem assign (p : Image.Place) (value : Image.Expr) :
    Leaves Stirred env (k.assign p value) := by
  unfold Evaluator.assign
  cases p with
  | slot slot => exact leaves_bind (hk.eval value).mono fun _ => leaves_setLocal _ _
  | field target name =>
    refine leaves_bind (hk.eval target).mono fun _ => leaves_bind (hk.eval value).mono fun _ => ?_
    exact (hk.setMember _ _ _).mono
  | staticField owner name =>
    refine leaves_bind (leaves_resolve _) fun c => leaves_bind (hk.eval value).mono fun v => ?_
    exact (hk.writeStatic _ _ _).mono
  | index target i =>
    refine leaves_bind (hk.eval target).mono fun _ => leaves_bind (hk.eval i).mono fun _ => ?_
    refine leaves_bind (hk.eval value).mono fun v => leaves_bind leaves_heap fun heap => ?_
    exact leaves_bind (leaves_ofExcept _) fun _ => leaves_modifyHeap _

theorem whileRounds (line : Nat) (cond : Image.Expr) (body : List Image.Stmt) (n : Nat) :
    Leaves Stirred env (k.whileRounds line cond body n) := by
  induction n with
  | zero => exact leaves_throw _
  | succ n ih =>
    unfold Evaluator.whileRounds
    refine leaves_bind leaves_checkCancelled fun _ => leaves_bind (leaves_setLine _) fun _ => ?_
    refine leaves_bind (hk.eval cond).mono fun v => ?_
    split
    · exact leaves_pure _
    · refine leaves_bind (hk.block body) fun flow => ?_
      split
      · exact leaves_pure _
      · exact leaves_pure _
      · exact ih
      · exact ih

theorem forRounds (slot : Nat) (body : List Image.Stmt) (items : List Value) :
    Leaves Stirred env (k.forRounds slot body items) := by
  induction items with
  | nil => exact leaves_pure _
  | cons item rest ih =>
    unfold Evaluator.forRounds
    refine leaves_bind leaves_checkCancelled fun _ => leaves_bind (leaves_setLocal _ _) fun _ => ?_
    refine leaves_bind (hk.block body) fun flow => ?_
    split
    · exact leaves_pure _
    · exact leaves_pure _
    · exact ih
    · exact ih

theorem execStmt (s : Image.Stmt) : Leaves Stirred env (k.execStmt s) := by
  unfold Evaluator.execStmt
  refine leaves_bind (leaves_setLine _) fun _ => ?_
  cases s with
  | declare line slot init =>
    cases init with
    | none => exact leaves_bind (leaves_setLocal _ _) fun _ => leaves_pure _
    | some init =>
      refine leaves_bind (hk.eval init).mono fun v => ?_
      exact leaves_bind (leaves_setLocal _ _) fun _ => leaves_pure _
  | assign line p e => exact leaves_bind (hk.assign p e) fun _ => leaves_pure _
  | expr line e => exact leaves_bind (hk.eval e).mono fun _ => leaves_pure _
  | cond line c a b =>
    refine leaves_bind (hk.eval c).mono fun v => ?_
    split
    · exact hk.block a
    · exact hk.block b
  | whileLoop line c b => exact hk.whileRounds line c b k.fuel
  | forLoop line slot e b =>
    refine leaves_bind (hk.eval e).mono fun v => leaves_bind leaves_heap fun heap => ?_
    exact leaves_bind (leaves_ofExcept _) fun items => hk.forRounds slot b items
  | ret line e =>
    cases e with
    | none => exact leaves_pure _
    | some e => exact leaves_bind (hk.eval e).mono fun _ => leaves_pure _
  | throw line e => exact leaves_bind (hk.eval e).mono fun v => (hk.throwValue v).mono
  -- the frames of what was thrown are gone when the handler starts
  | tryCatch line b slot handler =>
    refine leaves_handle (hk.block b) fun v => ?_
    cases slot with
    | none => exact hk.block handler
    | some slot => exact leaves_bind (leaves_setLocal _ _) fun _ => hk.block handler
  | breakLoop line | continueLoop line => exact leaves_pure _
  | block line b => exact hk.block b

end Evaluator.Balanced

namespace Evaluator

/-- By induction on the fuel: every rule keeps the balance if the evaluator for the parts does. -/
theorem balanced_ofFuel (env : Environment) (n : Nat) : (ofFuel n).Balanced env := by
  induction n with
  | zero => exact ⟨fun _ => leaves_throw _, fun _ => leaves_throw _, fun _ => leaves_throw _⟩
  | succ n ih => exact ⟨ih.evalExpr, ih.execStmt, ih.displayValue⟩

/-- Whatever is evaluated leaves the same frames behind, with the same lines and locals; a statement
may leave another line and other locals in the innermost one. This holds of every end: a value, an
exception, and being cancelled. -/
theorem frames_afterwards (n : Nat) (env : Environment) (m : Machine) :
    (∀ e, (Run.final ((ofFuel n).eval e env m)).frames = m.frames) ∧
    (∀ c method this args,
      (Run.final ((ofFuel n).call c method this args env m)).frames = m.frames) ∧
    (∀ c name args, (Run.final ((ofFuel n).callStatic c name args env m)).frames = m.frames) ∧
    (∀ target name args,
      (Run.final ((ofFuel n).callValue target name args env m)).frames = m.frames) ∧
    (∀ c args, (Run.final ((ofFuel n).construct c args env m)).frames = m.frames) ∧
    (∀ c, (Run.final ((ofFuel n).ensureStatics c env m)).frames = m.frames) ∧
    (∀ v, (Run.final ((ofFuel n).display v env m)).frames = m.frames) ∧
    ∀ s, Stirred m.frames (Run.final ((ofFuel n).exec s env m)).frames := by
  have hk := balanced_ofFuel env n
  refine ⟨?_, ?_, ?_, ?_, ?_, ?_, ?_, ?_⟩
  · exact fun e => (hk.eval e m).frames.symm
  · exact fun c method this args => (hk.call c method this args m).frames.symm
  · exact fun c name args => (hk.callStatic c name args m).frames.symm
  · exact fun target name args => (hk.callValue target name args m).frames.symm
  · exact fun c args => (hk.construct c args m).frames.symm
  · exact fun c => (hk.ensureStatics c m).frames.symm
  · exact fun v => (hk.display v m).frames.symm
  · exact fun s => (hk.exec s m).frames

end Evaluator

end GenLang
