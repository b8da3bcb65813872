import GenLang.Proofs.Running.Integrity

/-!
# Computations in good order

Two computations conform on some calls in progress if they do the same on every machine in good
order there, leave it in good order, and find or throw something that is known. The classes of
objects that there are already are given by a list, of which those of every later machine are a
continuation.
-/

namespace GenLang

variable {α β : Type}

/-- A run ends in good order, and what it finds is as `Q` says. -/
def Run.Ends (env : Environment) (as : List Activation) (cs : List ClassId)
    (Q : List ClassId → α → Prop) : EStateM.Result Stop Machine α → Prop
  | .ok a m => m.Sound env as ∧ cs <+: m.heap.classes ∧ Q m.heap.classes a
  | .error e m => m.Sound env as ∧ cs <+: m.heap.classes ∧ e.Sound env m.heap.classes

def Conforms (env : Environment) (as : List Activation) (cs : List ClassId) (x y : Run α)
    (Q : List ClassId → α → Prop) : Prop :=
  ∀ m : Machine, m.Sound env as → cs <+: m.heap.classes →
    x env m = y env m ∧ Run.Ends env as m.heap.classes Q (y env m)

/-- Nothing is known of what is found. -/
abbrev Anything (_ : List ClassId) (_ : α) : Prop :=
  True

/-- Values that are known. -/
def Value.AllKnown (cs : List ClassId) (vs : List Value) : Prop :=
  ∀ v ∈ vs, v.Known cs

theorem Value.AllKnown.mono {cs cs' : List ClassId} {vs : List Value} (h : Value.AllKnown cs vs)
    (hcs : cs <+: cs') : Value.AllKnown cs' vs :=
  fun v hv => (h v hv).mono hcs

variable {env : Environment} {as : List Activation} {cs : List ClassId}
  {Q : List ClassId → α → Prop} {R : List ClassId → β → Prop}

/-- A machine with another heap that has grown. -/
theorem Machine.Sound.grow {m m' : Machine} (hm : m.Sound env as)
    (hg : m.heap.Grows env.hierarchy m'.heap) (hstatics : m'.statics = m.statics)
    (hframes : m'.frames = m.frames) (hparked : m'.parked = m.parked) : m'.Sound env as where
  heap := hg.sound
  statics := by
    rw [hstatics]
    exact fun entry hentry f hf => (hm.statics entry hentry f hf).mono hg.classes
  frames := by
    rw [hframes]
    exact hm.frames.imp fun _ _ hf => hf.mono hg.classes
  bounded := hm.bounded
  parked := by
    rw [hparked]
    exact fun stop hstop => (hm.parked stop hstop).mono hg.classes

theorem Machine.Sound.of_eq {m m' : Machine} (hm : m.Sound env as) (hheap : m'.heap = m.heap)
    (hstatics : m'.statics = m.statics) (hframes : m'.frames = m.frames)
    (hparked : m'.parked = m.parked) : m'.Sound env as := by
  apply hm.grow _ hstatics hframes hparked
  rw [hheap]
  exact .refl hm.heap

theorem Run.Ends.mono {cs cs' : List ClassId} (hcs : cs <+: cs')
    {r : EStateM.Result Stop Machine α} (h : Run.Ends env as cs' Q r) :
    Run.Ends env as cs Q r := by
  cases r with
  | ok a m => exact ⟨h.1, hcs.trans h.2.1, h.2.2⟩
  | error e m => exact ⟨h.1, hcs.trans h.2.1, h.2.2⟩

/-- Less may be said of what is found. -/
theorem Conforms.weaken {x y : Run α} {Q' : List ClassId → α → Prop}
    (h : Conforms env as cs x y Q) (hQ : ∀ cs' a, Q cs' a → Q' cs' a) :
    Conforms env as cs x y Q' := by
  intro m hm hcs
  obtain ⟨heq, hends⟩ := h m hm hcs
  refine ⟨heq, ?_⟩
  cases hy : y env m with
  | ok a m' =>
    rw [hy] at hends
    exact ⟨hends.1, hends.2.1, hQ _ a hends.2.2⟩
  | error e m' =>
    rw [hy] at hends
    exact hends

theorem conforms_bind {x y : Run α} {f g : α → Run β} (hx : Conforms env as cs x y Q)
    (hf : ∀ cs', cs <+: cs' → ∀ a, Q cs' a → Conforms env as cs' (f a) (g a) R) :
    Conforms env as cs (x >>= f) (y >>= g) R := by
  intro m hm hcs
  obtain ⟨heq, hends⟩ := hx m hm hcs
  cases hy : y env m with
  | ok a m' =>
    rw [hy] at heq hends
    obtain ⟨hm', hcs', hQ⟩ := hends
    rw [bind_of_ok heq, bind_of_ok hy]
    obtain ⟨heq', hends'⟩ := hf _ (hcs.trans hcs') a hQ m' hm' List.prefix_rfl
    exact ⟨heq', hends'.mono hcs'⟩
  | error e m' =>
    rw [hy] at heq hends
    rw [bind_of_error heq, bind_of_error hy]
    exact ⟨rfl, hends⟩

theorem conforms_pure {a : α} (h : ∀ cs', cs <+: cs' → Q cs' a) :
    Conforms env as cs (pure a) (pure a) Q :=
  fun _ hm hcs => ⟨rfl, hm, List.prefix_rfl, h _ hcs⟩

theorem conforms_return (a : α) : Conforms env as cs (pure a) (pure a) Anything :=
  conforms_pure fun _ _ => trivial

theorem conforms_value {v : Value} (hv : v.Known cs) :
    Conforms env as cs (pure v) (pure v) Value.Known :=
  conforms_pure fun _ hcs => hv.mono hcs

theorem conforms_throw {e : Stop} (h : e.Sound env cs) :
    Conforms env as cs (throw e : Run α) (throw e) Q :=
  fun _ hm hcs => ⟨rfl, hm, List.prefix_rfl, h.mono hcs⟩

/-! ## Reading the machine -/

/-- The environment is known all along. -/
theorem conforms_bind_read {f g : Environment → Run β}
    (h : Conforms env as cs (f env) (g env) R) :
    Conforms env as cs (read >>= f) (read >>= g) R :=
  h

theorem conforms_bind_hierarchy {f g : Hierarchy → Run β}
    (h : Conforms env as cs (f env.hierarchy) (g env.hierarchy) R) :
    Conforms env as cs (Run.hierarchy >>= f) (Run.hierarchy >>= g) R :=
  h

theorem conforms_bind_get {f g : Machine → Run β}
    (h : ∀ m : Machine, m.Sound env as → cs <+: m.heap.classes →
      Conforms env as m.heap.classes (f m) (g m) R) :
    Conforms env as cs (get >>= f) (get >>= g) R :=
  fun m hm hcs => h m hm hcs m hm List.prefix_rfl

theorem conforms_bind_heap {f g : Heap → Run β}
    (h : ∀ heap : Heap, heap.Sound env.hierarchy → cs <+: heap.classes →
      Conforms env as heap.classes (f heap) (g heap) R) :
    Conforms env as cs (Run.heap >>= f) (Run.heap >>= g) R :=
  fun m hm hcs => h m.heap hm.heap hcs m hm List.prefix_rfl

/-- What is read of the heap is used before the heap changes. -/
theorem conforms_bind_heap_now {f g : Heap → Run β}
    (h : ∀ m : Machine, m.Sound env as → cs <+: m.heap.classes →
      f m.heap env m = g m.heap env m ∧ Run.Ends env as m.heap.classes R (g m.heap env m)) :
    Conforms env as cs (Run.heap >>= f) (Run.heap >>= g) R :=
  h

/-- What is found in the innermost frame. -/
theorem conforms_frame {look : Frame → Option Value}
    (h : ∀ cs f a, f.Serves env.hierarchy cs a → ∀ v ∈ look f, v.Known cs) :
    Conforms env as cs (do return ((← get).frames.head?.bind look).getD .null)
      (do return ((← get).frames.head?.bind look).getD .null) Value.Known := by
  apply conforms_bind_get
  intro m hm hcs
  apply conforms_value
  apply Value.known_getD
  intro v hv
  have hframes := hm.frames
  cases hm' : m.frames with
  | nil =>
    rw [hm'] at hv
    cases hv
  | cons f fs =>
    rw [hm'] at hv hframes
    cases hframes with
    | cons hf _ => exact h _ f _ hf v hv

theorem conforms_getLocal (slot : Nat) :
    Conforms env as cs (Run.getLocal slot) (Run.getLocal slot) Value.Known :=
  conforms_frame fun _ _ _ hf v hv => hf.locals v (Array.mem_of_getElem? hv)

/-- A value is the receiver of the innermost call. -/
structure Value.IsSelf (as : List Activation) (cs : List ClassId) (v : Value) : Prop where
  eq : v = Activation.self as
  known : v.Known cs

theorem conforms_getThis :
    Conforms env as cs Run.getThis Run.getThis (Value.IsSelf as) := by
  intro m hm hcs
  refine ⟨rfl, hm, List.prefix_rfl, ?_⟩
  have hframes := hm.frames
  show Value.IsSelf as m.heap.classes ((m.frames.head?.bind (·.this)).getD .null)
  revert hframes
  cases m.frames with
  | nil =>
    intro hframes
    cases hframes
    exact ⟨rfl, trivial⟩
  | cons f frames =>
    intro hframes
    cases hframes with
    | cons hf _ =>
      refine ⟨congrArg (Option.getD · Value.null) hf.this, Value.known_getD fun v hv => ?_⟩
      have hreceiver : f.this = some v := hv
      rw [hf.this] at hreceiver
      exact (hf.receiver v hreceiver).known

/-! ## Changing the machine -/

/-- A change of the machine that it survives, with perhaps more objects. -/
theorem conforms_modify {f : Machine → Machine}
    (hf : ∀ m : Machine, m.Sound env as → cs <+: m.heap.classes →
      (f m).Sound env as ∧ m.heap.classes <+: (f m).heap.classes) :
    Conforms env as cs (modify f : Run Unit) (modify f) Anything :=
  fun m hm hcs => ⟨rfl, (hf m hm hcs).1, (hf m hm hcs).2, trivial⟩

theorem conforms_modifyHeap {f : Heap → Heap}
    (hf : ∀ heap : Heap, heap.Sound env.hierarchy → cs <+: heap.classes →
      heap.Grows env.hierarchy (f heap)) :
    Conforms env as cs (Run.modifyHeap f) (Run.modifyHeap f) Anything := by
  apply conforms_modify
  intro m hm hcs
  have hg := hf m.heap hm.heap hcs
  exact ⟨hm.grow hg rfl rfl rfl, hg.classes⟩

/-- Something is put on the heap, and known afterwards. -/
theorem conforms_allocate {place : Heap → Value × Heap} {Q : List ClassId → Value → Prop}
    (hplace : ∀ heap : Heap, heap.Sound env.hierarchy → cs <+: heap.classes →
      heap.Grows env.hierarchy (place heap).2 ∧ Q (place heap).2.classes (place heap).1) :
    Conforms env as cs (Run.allocate place) (Run.allocate place) Q := by
  intro m hm hcs
  obtain ⟨hg, hQ⟩ := hplace m.heap hm.heap hcs
  exact ⟨rfl, hm.grow hg rfl rfl rfl, hg.classes, hQ⟩

theorem conforms_places {place : Heap → Value × Heap}
    (hplace : ∀ heap : Heap, heap.Sound env.hierarchy → cs <+: heap.classes →
      heap.Places env.hierarchy (place heap)) :
    Conforms env as cs (Run.allocate place) (Run.allocate place) Value.Known :=
  conforms_allocate fun heap hs hcs => ⟨(hplace heap hs hcs).grows, (hplace heap hs hcs).known⟩

theorem conforms_newList {items : Array Value} (hitems : ∀ v ∈ items, v.Known cs) :
    Conforms env as cs (Run.newList items) (Run.newList items) Value.Known :=
  conforms_places fun _ hs hcs => .newList hs fun v hv => (hitems v hv).mono hcs

/-- An object is made, of a class of which it has the fields. -/
theorem conforms_newObject {o : Instance} (ho : ∀ f ∈ o.fields, f.2.Known cs)
    (hfits : env.hierarchy.FaultsFit → o.Fits env.hierarchy) :
    Conforms env as cs (Run.newObject o) (Run.newObject o)
      (fun cs' v => ∃ a, v = .object a ∧ cs'[a]? = some o.cls) := by
  apply conforms_allocate
  intro heap hs hcs
  have hg := Heap.Grows.newObject hs (fun f hf => (ho f hf).mono hcs) hfits
  refine ⟨hg, heap.objects.size, rfl, ?_⟩
  have hsize : heap.objects.size < (heap.newObject o).2.objects.size := by
    rw [Heap.newObject, Array.size_push]
    omega
  have hget : (heap.newObject o).2.instance_ heap.objects.size = o := by
    rw [Heap.instance_, Heap.newObject, Array.getD_eq_getD_getElem?, Array.getElem?_push_size]
    rfl
  rw [Heap.classes_getElem? hsize, hget]

theorem Machine.Sound.poll {m : Machine} (hm : m.Sound env as) : m.poll.2.Sound env as :=
  hm.of_eq rfl rfl rfl rfl

theorem Machine.poll_heap (m : Machine) : m.poll.2.heap = m.heap :=
  rfl

theorem conforms_pollCancelled :
    Conforms env as cs Run.pollCancelled Run.pollCancelled Anything := by
  intro m hm _
  refine ⟨rfl, hm.poll, ?_, trivial⟩
  have hclasses : m.poll.2.heap.classes = m.heap.classes := congrArg Heap.classes m.poll_heap
  exact hclasses ▸ List.prefix_rfl

theorem conforms_checkCancelled :
    Conforms env as cs Run.checkCancelled Run.checkCancelled Anything := by
  apply conforms_bind conforms_pollCancelled
  intro cs' _ cancelled _
  split
  · exact conforms_throw .cancelled
  · exact conforms_return _

/-! ## Exceptions -/

/-- The calls in progress may be told in a trace. -/
theorem Machine.Sound.traces {m : Machine} (hm : m.Sound env as) :
    env.Traces (m.frames.map (·.toStackFrame)) :=
  ⟨m.heap.classes, m.frames, as, hm.frames, hm.bounded, rfl⟩

theorem conforms_bind_trace {f g : List StackFrame → Run β}
    (h : ∀ trace, env.Traces trace → Conforms env as cs (f trace) (g trace) R) :
    Conforms env as cs (Run.trace >>= f) (Run.trace >>= g) R :=
  fun m hm hcs => h _ hm.traces m hm hcs

theorem conforms_faultValue (f : Fault) :
    Conforms env as cs (Run.faultValue f) (Run.faultValue f) Value.Known := by
  apply conforms_bind_hierarchy
  split
  · next c hc =>
    -- The message is the only field of an exception.
    apply Conforms.weaken (conforms_newObject _ _)
    · rintro cs' v ⟨a, rfl, ha⟩
      exact (List.getElem?_eq_some_iff.1 ha).1
    · intro field hfield
      obtain rfl := List.mem_singleton.1 hfield
      trivial
    · exact fun hfaults => (hfaults c hc).symm
  · exact conforms_value trivial

theorem conforms_stopOf (f : Fault) :
    Conforms env as cs (Run.stopOf f) (Run.stopOf f) (fun cs' e => e.Sound env cs') := by
  -- the exception of a fault is made on the spot, so it is known from then on
  have hthrown {cs : List ClassId} : Conforms env as cs (do
      let v ← Run.faultValue f
      return .thrown v ⟨f.name, f.message, ← Run.trace⟩ : Run Stop) (do
      let v ← Run.faultValue f
      return .thrown v ⟨f.name, f.message, ← Run.trace⟩ : Run Stop)
      (fun cs' e => e.Sound env cs') := by
    apply conforms_bind (conforms_faultValue f)
    intro cs' _ v hv
    apply conforms_bind_trace
    intro trace htrace
    apply conforms_pure
    exact fun cs'' hcs'' => .thrown (hv.mono hcs'') htrace
  unfold Run.stopOf
  dsimp only
  split
  · apply conforms_bind conforms_pollCancelled
    intro cs' _ cancelled _
    split
    · exact conforms_pure fun _ _ => .cancelled
    · exact hthrown
  · exact hthrown

theorem conforms_raise (f : Fault) : Conforms env as cs (Run.raise f : Run α) (Run.raise f) Q := by
  apply conforms_bind (conforms_stopOf f)
  intro cs' _ e he
  exact conforms_throw he

/-- After a fault it does not matter what comes. -/
theorem conforms_bind_raise (f : Fault) {g g' : α → Run β} :
    Conforms env as cs (Run.raise f >>= g) (Run.raise f >>= g') R := by
  rw [raise_bind, raise_bind]
  exact conforms_raise f

/-- A check that raises a fault before the rest, which is done where the check is passed. -/
theorem conforms_raiseIf {p : Prop} [Decidable p] {f : Fault} {x y : Run α}
    (h : ¬p → Conforms env as cs x y Q) :
    Conforms env as cs (if p then (Run.raise f : Run PUnit) >>= fun _ => x else x)
      (if p then (Run.raise f : Run PUnit) >>= fun _ => y else y) Q := by
  split
  · exact conforms_bind_raise f
  · next hp => exact h hp

theorem conforms_ofExcept {x : Except Fault α}
    (h : ∀ a, x = .ok a → ∀ cs', cs <+: cs' → Q cs' a) :
    Conforms env as cs (Run.ofExcept x) (Run.ofExcept x) Q := by
  cases x with
  | ok a => exact conforms_pure (h a rfl)
  | error f => exact conforms_raise f

/-- The heap is read, and what was made of it takes its place, unless that is a fault. -/
theorem conforms_bind_update {f : Heap → Except Fault α} (place : α → Heap) (g g' : α → Run β)
    (hf : ∀ (heap : Heap) a, heap.Sound env.hierarchy → cs <+: heap.classes →
      f heap = .ok a → heap.Grows env.hierarchy (place a) ∧
        Conforms env as (place a).classes (g a) (g' a) R) :
    Conforms env as cs
      (do let a ← Run.ofExcept (f (← Run.heap)); Run.modifyHeap fun _ => place a; g a)
      (do let a ← Run.ofExcept (f (← Run.heap)); Run.modifyHeap fun _ => place a; g' a) R := by
  apply conforms_bind_heap_now
  intro m hm hcs
  cases ha : f m.heap with
  | error fault => exact conforms_bind_raise fault m hm List.prefix_rfl
  | ok a =>
    obtain ⟨hg, hrest⟩ := hf m.heap a hm.heap hcs ha
    have hm' : ({ m with heap := place a } : Machine).Sound env as := hm.grow hg rfl rfl rfl
    obtain ⟨heq, hends⟩ := hrest _ hm' List.prefix_rfl
    exact ⟨heq, hends.mono hg.classes⟩

/-! ## Frames -/

theorem conforms_modifyFrame {f : Frame → Frame}
    (hf : ∀ cs' frame a, cs <+: cs' → frame.Serves env.hierarchy cs' a →
      (f frame).Serves env.hierarchy cs' a) :
    Conforms env as cs (Run.modifyFrame f) (Run.modifyFrame f) Anything := by
  apply conforms_modify
  intro m hm hcs
  obtain ⟨heap, statics, frames, console, patience, output, hints, parked⟩ := m
  cases frames with
  | nil => exact ⟨hm, List.prefix_rfl⟩
  | cons frame rest =>
    refine ⟨⟨hm.heap, hm.statics, ?_, hm.bounded, hm.parked⟩, List.prefix_rfl⟩
    have hframes := hm.frames
    cases hframes with
    | cons hframe hrest => exact .cons (hf _ frame _ hcs hframe) hrest

theorem conforms_setLine (line : Nat) :
    Conforms env as cs (Run.setLine line) (Run.setLine line) Anything :=
  conforms_modifyFrame fun _ _ _ _ hf => { hf with }

theorem Frame.setLocal_eq (f : Frame) (slot : Nat) (v : Value) :
    ∃ locals, f.setLocal slot v = { f with locals } ∧
      ∀ w ∈ locals, w ∈ f.locals ∨ w = .null ∨ w = v := by
  unfold Frame.setLocal
  split
  · refine ⟨_, rfl, fun w hw => ?_⟩
    rcases Array.mem_or_eq_of_mem_setIfInBounds hw with hw | hw
    · exact .inl hw
    · exact .inr (.inr hw)
  · refine ⟨_, rfl, fun w hw => ?_⟩
    rcases Array.mem_push.1 hw with hw | hw
    · rcases Array.mem_append.1 hw with hw | hw
      · exact .inl hw
      · exact .inr (.inl (Array.eq_of_mem_replicate hw))
    · exact .inr (.inr hw)

theorem conforms_setLocal {v : Value} (hv : v.Known cs) (slot : Nat) :
    Conforms env as cs (Run.setLocal slot v) (Run.setLocal slot v) Anything := by
  apply conforms_modifyFrame
  intro cs' frame a hcs hf
  obtain ⟨locals, heq, hmem⟩ := frame.setLocal_eq slot v
  rw [heq]
  refine { hf with locals := fun w hw => ?_ }
  rcases hmem w hw with hw | rfl | rfl
  · exact hf.locals w hw
  · trivial
  · exact hv.mono hcs

theorem conforms_bind_resolve {t : TypeRef} {f g : ClassId → Run β}
    (h : ∀ c, Conforms env as cs (f c) (g c) R) :
    Conforms env as cs (Run.resolve t >>= f) (Run.resolve t >>= g) R := by
  intro m hm hcs
  have hhierarchy : Run.hierarchy env m = .ok env.hierarchy m := rfl
  have hmodule : Run.currentModule env m = .ok (m.modules.headD env.hierarchy.mainIndex) m :=
    currentModule_eq rfl
  -- The class is looked up from the module of the innermost call, and that is the same for both.
  cases hc : env.hierarchy.resolve? (m.modules.headD env.hierarchy.mainIndex) t with
  | some c =>
    have hresolve : Run.resolve t env m = .ok c m := by
      unfold Run.resolve
      rw [bind_of_ok hhierarchy, bind_of_ok hmodule, hc]
      rfl
    rw [bind_of_ok hresolve, bind_of_ok hresolve]
    exact h c m hm hcs
  | none =>
    have hresolve : Run.resolve t env m = (Run.raise (.typeLoad t.name) : Run ClassId) env m := by
      unfold Run.resolve
      rw [bind_of_ok hhierarchy, bind_of_ok hmodule, hc]
    have hraise (k : ClassId → Run β) :
        (Run.resolve t >>= k) env m =
          ((Run.raise (.typeLoad t.name) : Run ClassId) >>= k) env m := by
      show EStateM.bind (Run.resolve t env) (fun c => k c env) m = _
      rw [EStateM.bind, hresolve]
      rfl
    rw [hraise, hraise]
    exact conforms_bind_raise _ m hm hcs

theorem Activation.Bounded.cons {limit : Nat} {a : Activation} (h : Activation.Bounded limit as)
    (ha : a.initialising.isSome ∨ as.length < limit) : Activation.Bounded limit (a :: as) := by
  intro b hb
  rw [List.length_cons] at hb
  by_cases hlimit : as.length < limit
  · rw [show as.length + 1 - limit = 0 by omega] at hb
    exact absurd hb List.not_mem_nil
  · rw [show as.length + 1 - limit = as.length - limit + 1 by omega, List.take_succ_cons] at hb
    rcases List.mem_cons.1 hb with rfl | hb
    · exact ha.resolve_right hlimit
    · exact h b hb

/-- What is done in a frame of its own is done among one more activation. -/
theorem conforms_inFrame {f : Frame} {a : Activation} {x y : Run α}
    (hf : f.Serves env.hierarchy cs a) (ha : a.initialising.isSome ∨ as.length < env.maxCallDepth)
    (h : Conforms env (a :: as) cs x y Q) :
    Conforms env as cs (Run.inFrame f x) (Run.inFrame f y) Q := by
  intro m hm hcs
  have hpushed : ({ m with frames := f :: m.frames } : Machine).Sound env (a :: as) :=
    ⟨hm.heap, hm.statics, .cons (hf.mono hcs) hm.frames, hm.bounded.cons ha, hm.parked⟩
  obtain ⟨heq, hends⟩ := h _ hpushed hcs
  simp only [Run.inFrame, heq]
  -- The frame is popped, whichever way the body ends.
  have hpopped {m' : Machine} (hm' : m'.Sound env (a :: as)) :
      ({ m' with frames := m'.frames.tail } : Machine).Sound env as := by
    have hframes := hm'.frames
    cases hm'' : m'.frames with
    | nil =>
      rw [hm''] at hframes
      cases hframes
    | cons f' rest =>
      rw [hm''] at hframes
      cases hframes with
      | cons _ hrest => exact ⟨hm'.heap, hm'.statics, hrest, hm.bounded, hm'.parked⟩
  cases hy : y env { m with frames := f :: m.frames } with
  | ok b m' | error e m' =>
    rw [hy] at hends
    exact ⟨trivial, hpopped hends.1, hends.2.1, hends.2.2⟩

/-- A handler finds what was thrown, and the calls in progress that there were before the body. -/
theorem conforms_handle {x y : Run Flow} {f g : Value → Run Flow}
    (hx : Conforms env as cs x y Flow.Known)
    (hf : ∀ cs', cs <+: cs' → ∀ v : Value, v.Known cs' →
      Conforms env as cs' (f v) (g v) Flow.Known) :
    Conforms env as cs (Evaluator.handle x f) (Evaluator.handle y g) Flow.Known := by
  intro m hm hcs
  obtain ⟨heq, hends⟩ := hx m hm hcs
  simp only [Evaluator.handle, heq]
  cases hy : y env m with
  | ok flow m' =>
    rw [hy] at hends
    exact ⟨rfl, hends⟩
  | error e m' =>
    rw [hy] at hends
    obtain ⟨hm', hcs', he⟩ := hends
    cases he with
    | cancelled => exact ⟨rfl, hm', hcs', .cancelled⟩
    | outOfFuel => exact ⟨rfl, hm', hcs', .outOfFuel⟩
    | @thrown v info hv htrace =>
      -- No calls are left over that would have to be dropped.
      have hdepth : m'.frames.length - m.frames.length = 0 := by
        rw [hm'.frames.length_eq, hm.frames.length_eq, Nat.sub_self]
      dsimp only
      rw [hdepth, List.drop_zero]
      obtain ⟨heq', hends'⟩ := hf _ (hcs.trans hcs') v hv m' hm' List.prefix_rfl
      exact ⟨heq', hends'.mono hcs'⟩

/-! ## Several values -/

/-- Values that are found one after the other are all known in the end. -/
theorem conforms_mapM {f g : α → Run Value} {xs : List α}
    (h : ∀ x ∈ xs, ∀ cs', cs <+: cs' → Conforms env as cs' (f x) (g x) Value.Known) :
    Conforms env as cs (xs.mapM f) (xs.mapM g) Value.AllKnown := by
  induction xs generalizing cs with
  | nil =>
    rw [List.mapM_nil, List.mapM_nil]
    exact conforms_pure fun _ _ v hv => absurd hv List.not_mem_nil
  | cons x xs ih =>
    rw [List.mapM_cons, List.mapM_cons]
    apply conforms_bind (h x List.mem_cons_self cs List.prefix_rfl)
    intro cs' hcs' v hv
    have hrest := ih fun y hy cs'' hcs'' =>
      h y (List.mem_cons_of_mem x hy) cs'' (hcs'.trans hcs'')
    apply conforms_bind hrest
    intro cs'' hcs'' vs hvs
    apply conforms_pure
    intro cs₃ hcs₃ w hw
    rcases List.mem_cons.1 hw with rfl | hw
    · exact hv.mono (hcs''.trans hcs₃)
    · exact (hvs w hw).mono hcs₃

/-- Texts that are found one after the other. -/
theorem conforms_mapM_texts {f g : α → Run String} {xs : List α}
    (h : ∀ x ∈ xs, ∀ cs', cs <+: cs' → Conforms env as cs' (f x) (g x) Anything) :
    Conforms env as cs (xs.mapM f) (xs.mapM g) Anything := by
  induction xs generalizing cs with
  | nil =>
    rw [List.mapM_nil, List.mapM_nil]
    exact conforms_return _
  | cons x xs ih =>
    rw [List.mapM_cons, List.mapM_cons]
    apply conforms_bind (h x List.mem_cons_self cs List.prefix_rfl)
    intro cs' hcs' text _
    have hrest := ih fun y hy cs'' hcs'' =>
      h y (List.mem_cons_of_mem x hy) cs'' (hcs'.trans hcs'')
    apply conforms_bind hrest
    exact fun cs'' _ texts _ => conforms_return _

end GenLang
