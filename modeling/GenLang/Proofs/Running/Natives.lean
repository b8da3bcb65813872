import GenLang.Proofs.Running.Conduct

/-!
# Native code in good order

Native code is careful if each of its requests keeps the heap in good order, whatever objects there
are by then, and asks only for texts of values that are known. All native code is, so entering it
conforms where the texts do.
-/

namespace GenLang

variable {α β : Type} {env : Environment} {as : List Activation} {cs : List ClassId}
  {Q : List ClassId → α → Prop} {R : List ClassId → β → Prop}

/-- Native code keeps the heap in good order, and its value is as `Q` says. -/
inductive NativeCode.Careful (env : Environment) (Q : List ClassId → α → Prop) :
    List ClassId → NativeCode α → Prop where
  | done {cs a} (h : ∀ cs', cs <+: cs' → Q cs' a) : Careful env Q cs (.done a)
  | fail {cs f} : Careful env Q cs (.fail f)
  | ask {cs next} (h : Careful env Q cs (next env)) : Careful env Q cs (.ask next)
  | look {cs next}
      (h : ∀ o : Outside, o.heap.Sound env.hierarchy → cs <+: o.heap.classes →
        Careful env Q o.heap.classes (next o)) : Careful env Q cs (.look next)
  | change {cs update next}
      (hupdate : ∀ o : Outside, o.heap.Sound env.hierarchy → cs <+: o.heap.classes →
        o.heap.Grows env.hierarchy (update o).heap)
      (h : Careful env Q cs next) : Careful env Q cs (.change update next)
  | allocate {cs place next}
      (hplace : ∀ heap : Heap, heap.Sound env.hierarchy → cs <+: heap.classes →
        heap.Places env.hierarchy (place heap))
      (h : ∀ cs' v, cs <+: cs' → v.Known cs' → Careful env Q cs' (next v)) :
      Careful env Q cs (.allocate place next)
  | poll {cs next} (h : ∀ cancelled, Careful env Q cs (next cancelled)) :
      Careful env Q cs (.poll next)
  | display {cs v next} (hv : v.Known cs) (h : ∀ text, Careful env Q cs (next text)) :
      Careful env Q cs (.display v next)

namespace NativeCode

/-! ## Requests one after the other -/

/-- More objects do no harm. -/
theorem Careful.mono {code : NativeCode α} (h : code.Careful env Q cs) {cs' : List ClassId}
    (hcs : cs <+: cs') : code.Careful env Q cs' := by
  induction h generalizing cs' with
  | done h => exact .done fun cs'' hcs'' => h cs'' (hcs.trans hcs'')
  | fail => exact .fail
  | ask _ ih => exact .ask (ih hcs)
  | look h _ => exact .look fun o ho hcs' => h o ho (hcs.trans hcs')
  | change hupdate _ ih => exact .change (fun o ho hcs' => hupdate o ho (hcs.trans hcs')) (ih hcs)
  | allocate hplace h _ =>
    apply Careful.allocate
    · exact fun heap hs hcs' => hplace heap hs (hcs.trans hcs')
    · exact fun cs'' v hcs'' hv => h cs'' v (hcs.trans hcs'') hv
  | poll _ ih => exact .poll fun cancelled => ih cancelled hcs
  | display hv _ ih => exact .display (hv.mono hcs) fun text => ih text hcs

theorem Careful.bind {code : NativeCode α} {f : α → NativeCode β} (h : code.Careful env Q cs)
    (hf : ∀ cs', cs <+: cs' → ∀ a, Q cs' a → (f a).Careful env R cs') :
    (code >>= f).Careful env R cs := by
  show (NativeCode.bind code f).Careful env R cs
  induction h with
  | done h => exact hf _ List.prefix_rfl _ (h _ List.prefix_rfl)
  | fail => exact .fail
  | ask _ ih => exact .ask (ih hf)
  | look _ ih =>
    apply Careful.look
    intro o ho hcs
    exact ih o ho hcs fun cs' hcs' => hf cs' (hcs.trans hcs')
  | change hupdate _ ih => exact .change hupdate (ih hf)
  | allocate hplace _ ih =>
    apply Careful.allocate hplace
    intro cs' v hcs hv
    exact ih cs' v hcs hv fun cs'' hcs' => hf cs'' (hcs.trans hcs')
  | poll _ ih => exact .poll fun cancelled => ih cancelled hf
  | display hv _ ih => exact .display hv fun text => ih text hf

theorem careful_return (a : α) : (pure a : NativeCode α).Careful env Anything cs :=
  .done fun _ _ => trivial

theorem careful_value {v : Value} (hv : v.Known cs) :
    (pure v : NativeCode Value).Careful env Value.Known cs :=
  .done fun _ hcs => hv.mono hcs

theorem careful_text {v : Value} (hv : v.Known cs) : (text v).Careful env Anything cs :=
  .display hv fun _ => careful_return _

/-- A text is a value that is known. -/
theorem careful_textValue {code : NativeCode α} {f : α → Value}
    (h : code.Careful env Anything cs) (hf : ∀ cs' a, (f a).Known cs') :
    (code >>= fun a => pure (f a)).Careful env Value.Known cs :=
  h.bind fun cs' _ a _ => careful_value (hf cs' a)

theorem careful_heap {f : Heap → NativeCode β}
    (h : ∀ heap : Heap, heap.Sound env.hierarchy → cs <+: heap.classes →
      (f heap).Careful env R heap.classes) : (heap >>= f).Careful env R cs :=
  .look fun o ho hcs => h o.heap ho hcs

theorem careful_modify {update : Outside → Outside}
    (hupdate : ∀ o : Outside, o.heap.Sound env.hierarchy → cs <+: o.heap.classes →
      o.heap.Grows env.hierarchy (update o).heap) :
    (modify update).Careful env Anything cs :=
  .change hupdate (careful_return ())

/-- What is changed beside the heap is of no concern. -/
theorem careful_beside {update : Outside → Outside} (hupdate : ∀ o, (update o).heap = o.heap)
    {rest : NativeCode β} (h : rest.Careful env R cs) :
    (modify update >>= fun _ => rest).Careful env R cs := by
  apply Careful.change _ h
  intro o ho _
  rw [hupdate]
  exact .refl ho

theorem careful_place {place : Heap → Value × Heap}
    (hplace : ∀ heap : Heap, heap.Sound env.hierarchy → cs <+: heap.classes →
      heap.Places env.hierarchy (place heap)) :
    (NativeCode.place place).Careful env Value.Known cs :=
  .allocate hplace fun _ _ _ hv => careful_value hv

theorem careful_ofExcept (x : Except Fault α) : (ofExcept x).Careful env Anything cs := by
  cases x with
  | ok a => exact careful_return a
  | error f => exact .fail

theorem careful_mapM_text {vs : List Value} (hvs : Value.AllKnown cs vs) :
    (vs.mapM text).Careful env Anything cs := by
  -- The texts that there are so far are collected in front of the rest.
  suffices ∀ texts, (List.mapM.loop text vs texts).Careful env Anything cs from this []
  induction vs with
  | nil => exact fun _ => careful_return _
  | cons v vs ih =>
    intro texts
    apply Careful.bind (careful_text (hvs v List.mem_cons_self))
    intro cs' hcs text _
    exact (ih (fun w hw => hvs w (List.mem_cons_of_mem v hw)) (text :: texts)).mono hcs

/-! ## Arguments -/

theorem careful_expectArgs (method : String) (args : List Value) (least most : Nat) :
    (expectArgs method args least most).Careful env Anything cs := by
  unfold expectArgs
  split
  · exact .fail
  · exact careful_return _

theorem careful_stringArg (method : String) (args : List Value) (index : Nat) :
    (stringArg method args index).Careful env Anything cs := by
  unfold stringArg
  split
  · exact careful_return _
  · exact .fail

theorem careful_intArg (method : String) (args : List Value) (index : Nat) :
    (intArg method args index).Careful env Anything cs := by
  unfold intArg
  split
  · exact careful_return _
  · exact .fail

theorem known_argAt {args : List Value} (hargs : Value.AllKnown cs args) (index : Nat) :
    (argAt args index).Known cs := by
  rw [argAt, List.getD_eq_getElem?_getD]
  apply Value.known_getD
  intro v hv
  exact hargs v (List.mem_of_getElem? hv)

theorem known_position (n : Option Nat) : (position n).Known cs := by
  cases n <;> trivial

/-- Arguments are counted before the rest. -/
theorem careful_expecting {method : String} {args : List Value} {least most : Nat}
    {rest : NativeCode β} (h : rest.Careful env R cs) :
    (expectArgs method args least most >>= fun _ => rest).Careful env R cs :=
  (careful_expectArgs method args least most).bind fun _ hcs _ _ => h.mono hcs

/-! ## Texts and lists -/

theorem careful_substring (s : String) (start : Int64) (length : Option Int64) :
    (substring s start length).Careful env Value.Known cs := by
  unfold substring
  dsimp only
  split
  · exact careful_value trivial
  · exact .fail

theorem careful_stringMethod (s method : String) {args : List Value}
    (hargs : Value.AllKnown cs args) :
    (stringMethod s method args).Careful env Value.Known cs := by
  unfold stringMethod
  split
  · exact careful_expecting (careful_value trivial)
  · exact careful_expecting (careful_value trivial)
  · exact careful_expecting (careful_value trivial)
  · exact careful_expecting (careful_textValue (careful_stringArg _ _ _) fun _ _ => trivial)
  · exact careful_expecting (careful_textValue (careful_stringArg _ _ _) fun _ _ => trivial)
  · exact careful_expecting (careful_textValue (careful_stringArg _ _ _) fun _ _ => trivial)
  · apply careful_expecting
    exact careful_textValue (careful_stringArg _ _ _) fun _ _ => known_position _
  · -- `Replace` asks for the text of its second argument.
    apply careful_expecting
    apply Careful.bind (careful_stringArg _ _ _)
    intro cs' hcs pattern _
    have hnew : (text (argAt args 1)).Careful env Anything cs' :=
      careful_text (known_argAt (hargs.mono hcs) 1)
    split
    · exact .fail
    · exact careful_textValue hnew fun _ _ => trivial
  · apply careful_expecting
    -- `Split` is the only method that makes a list; its parts are texts.
    apply Careful.bind (careful_stringArg _ _ _)
    intro cs' _ separator _
    apply careful_place
    intro heap hs _
    apply Heap.Places.newList hs
    intro v hv
    obtain ⟨part, -, rfl⟩ := List.mem_map.1 (List.mem_toArray.1 hv)
    trivial
  · apply careful_expecting
    apply Careful.bind (careful_intArg _ _ _)
    intro cs' _ start _
    split
    · apply Careful.bind (Q := Anything)
      · exact (careful_intArg _ args 1).bind fun _ _ n _ => careful_return (some n)
      · exact fun cs'' _ length _ => careful_substring s start length
    · exact careful_substring s start none
  · exact .fail

/-- Only `Add` puts something into a list, and that is an argument. -/
theorem careful_listMethod (address : Nat) (method : String) {args : List Value}
    (hargs : Value.AllKnown cs args) :
    (listMethod address method args).Careful env Value.Known cs := by
  unfold listMethod
  split
  · apply careful_expecting
    apply Careful.bind (careful_modify _)
    · exact fun cs' _ _ _ => careful_value trivial
    · intro o ho hcs
      apply Heap.Grows.modifyList ho
      intro items hitems v hv
      rcases Array.mem_push.1 hv with hv | rfl
      · exact hitems v hv
      · exact (known_argAt hargs 0).mono hcs
  · apply careful_expecting
    apply careful_heap
    exact fun heap _ _ => careful_value trivial
  · apply careful_expecting
    apply careful_heap
    exact fun heap _ _ => careful_value (known_position _)
  · apply careful_expecting
    apply Careful.bind (careful_intArg _ _ _)
    intro cs' _ index _
    split
    · apply careful_heap
      intro heap hs _
      split
      · apply Careful.bind (careful_modify _)
        · exact fun cs'' _ _ _ => careful_value trivial
        · intro o ho _
          apply Heap.Grows.modifyList ho
          intro items hitems v hv
          -- What is left behind `RemoveAt` was in the list before.
          apply hitems v
          rw [← Array.mem_toList_iff, Array.toList_eraseIdxIfInBounds] at hv
          exact Array.mem_toList_iff.1 (List.mem_of_mem_eraseIdx hv)
      · exact .fail
    · exact .fail
  · apply careful_expecting
    apply Careful.bind (careful_stringArg _ _ _)
    intro cs' _ separator _
    apply careful_heap
    intro heap hs _
    apply careful_textValue (careful_mapM_text _)
    · exact fun _ _ => trivial
    · exact fun v hv => Heap.known_of_mem_items hs (Array.mem_toList_iff.1 hv)
  · exact .fail

theorem careful_builtinMethod {target : Value} (htarget : target.Known cs) (method : String)
    {args : List Value} (hargs : Value.AllKnown cs args) :
    (builtinMethod target method args).Careful env Value.Known cs := by
  unfold builtinMethod
  split
  · exact careful_expecting (careful_textValue (careful_text htarget) fun _ _ => trivial)
  · exact careful_expecting (careful_value trivial)
  · exact careful_stringMethod _ _ hargs
  · exact careful_listMethod _ _ hargs
  · exact careful_heap fun _ _ _ => .fail

theorem careful_native (method : Native) {args : List Value} (hargs : Value.AllKnown cs args) :
    (native method args).Careful env Value.Known cs := by
  have hv : (argAt args 0).Known cs := known_argAt hargs 0
  have hwrite {cs' : List ClassId} (s : String) :
      (do write s; return .null : NativeCode Value).Careful env Value.Known cs' := by
    apply careful_beside
    · exact fun _ => rfl
    · exact careful_value trivial
  unfold native
  dsimp only
  cases method with
  | writeLine | write => exact (careful_text hv).bind fun cs' _ s _ => hwrite _
  | toText => exact careful_textValue (careful_text hv) fun _ _ => trivial
  | toInt =>
    apply careful_heap
    intro heap _ _
    exact careful_textValue (careful_ofExcept _) fun _ _ => trivial
  | fromResult => exact careful_place fun heap hs hcs => .newTask hs (hv.mono hcs)

/-! ## The host of a generator -/

theorem careful_addSource {args : List Value} (hargs : Value.AllKnown cs args) :
    (addSource args).Careful env Value.Known cs := by
  unfold addSource
  apply careful_expecting
  apply Careful.bind (careful_text (known_argAt hargs 0))
  intro cs' hcs hint _
  have hsource : (text (argAt args 1)).Careful env Anything cs' :=
    careful_text (known_argAt (hargs.mono hcs) 1)
  split
  · exact .fail
  apply Careful.bind hsource
  intro cs'' _ source _
  apply Careful.look
  intro o _ _
  show Careful env Value.Known _ (if _ then _ else _)
  split
  · exact .fail
  · apply Careful.ask
    apply careful_beside
    · exact fun _ => rfl
    · exact careful_value trivial

theorem careful_reportDiagnostic {args : List Value} (hargs : Value.AllKnown cs args) :
    (reportDiagnostic args).Careful env Value.Known cs := by
  unfold reportDiagnostic
  apply careful_expecting
  apply Careful.bind (careful_text (known_argAt hargs 0))
  intro cs' hcs word _
  split
  · exact .fail
  · apply Careful.bind (careful_text (known_argAt (hargs.mono hcs) 1))
    intro cs'' hcs' code _
    apply Careful.bind (careful_text (known_argAt (hargs.mono (hcs.trans hcs')) 2))
    intro cs₃ _ message _
    apply careful_beside
    · exact fun _ => rfl
    · exact careful_value trivial

theorem careful_hostMethod (object : HostObject) (name : String) {args : List Value}
    (hargs : Value.AllKnown cs args) :
    (hostMethod object name args).Careful env Value.Known cs := by
  -- What is shown of the program is placed on the heap as it is asked for.
  have hviews {cs' : List ClassId} (objects : List HostObject) :
      (place (·.newViews objects)).Careful env Value.Known cs' :=
    careful_place fun _ hs _ => .newViews hs objects
  unfold hostMethod
  apply Careful.ask
  dsimp only
  split
  · exact careful_addSource hargs
  · exact careful_reportDiagnostic hargs
  · exact careful_expecting (.poll fun cancelled => careful_value (v := .bool cancelled) trivial)
  · exact careful_expecting (hviews _)
  · apply careful_expecting
    apply Careful.bind (careful_text (known_argAt hargs 0))
    intro cs' _ wanted _
    split
    · exact careful_place fun _ hs _ => .newHost hs _
    · exact careful_value trivial
  · apply careful_expecting
    apply Careful.bind (careful_text (known_argAt hargs 0))
    exact fun cs' _ capability _ => hviews _
  · exact careful_expecting (hviews _)
  · exact careful_expecting (hviews _)
  · split
    · exact careful_value trivial
    · exact .fail
  · exact .fail

end NativeCode

/-! ## Entering native code -/

/-- Evaluators that conform wherever there is something to be done. Statements run only within the
limit of calls. -/
structure Evaluator.Alike (env : Environment) (k k' : Evaluator) : Prop where
  fuel : k.fuel = k'.fuel
  eval : ∀ {as cs e}, Served env.hierarchy as (Image.Expr.WellScoped · e) →
    Conforms env as cs (k.eval e) (k'.eval e) Value.Known
  self : ∀ {as cs}, Served env.hierarchy as (Image.Expr.WellScoped · .self) →
    Conforms env as cs (k.eval .self) (k'.eval .self) (Value.IsSelf as)
  exec : ∀ {as cs s}, Served env.hierarchy as (Image.Stmt.WellScoped · s) →
    as.length ≤ env.maxCallDepth → Conforms env as cs (k.exec s) (k'.exec s) Flow.Known
  display : ∀ {as cs} {v : Value}, v.Known cs →
    Conforms env as cs (k.display v) (k'.display v) Anything

/-- Native code ends in good order. -/
def NativeCode.Ends (env : Environment) (as : List Activation) (cs : List ClassId)
    (Q : List ClassId → α → Prop) : EStateM.Result Fault Machine α → Prop
  | .ok a m => m.Sound env as ∧ cs <+: m.heap.classes ∧ Q m.heap.classes a
  | .error _ m => m.Sound env as ∧ cs <+: m.heap.classes

theorem NativeCode.Ends.mono {cs cs' : List ClassId} (hcs : cs <+: cs')
    {r : EStateM.Result Fault Machine α} (h : Ends env as cs' Q r) : Ends env as cs Q r := by
  cases r with
  | ok a m => exact ⟨h.1, hcs.trans h.2.1, h.2.2⟩
  | error f m => exact ⟨h.1, hcs.trans h.2⟩

theorem Machine.Sound.unpark {m : Machine} (hm : m.Sound env as) : m.unpark.Sound env as := by
  refine ⟨hm.heap, hm.statics, hm.frames, hm.bounded, fun stop hstop => ?_⟩
  cases hstop

theorem Machine.Sound.park {m : Machine} (hm : m.Sound env as) {stop : Stop}
    (hstop : stop.Sound env m.heap.classes) : (m.park stop).Sound env as := by
  refine ⟨hm.heap, hm.statics, hm.frames, hm.bounded, fun stop' h => ?_⟩
  obtain rfl := Option.some.inj h
  exact hstop

namespace Evaluator

variable {k k' : Evaluator} (hk : Alike env k k')

include hk

/-- By induction on what careful native code asks for. -/
theorem conforms_code {code : NativeCode α} (hcode : code.Careful env Q cs) {m : Machine}
    (hm : m.Sound env as) (hcs : cs <+: m.heap.classes) :
    code.run k env m = code.run k' env m ∧
      NativeCode.Ends env as m.heap.classes Q (code.run k' env m) := by
  induction hcode generalizing m with
  | done h => exact ⟨rfl, hm, List.prefix_rfl, h _ hcs⟩
  | fail => exact ⟨rfl, hm, List.prefix_rfl⟩
  | ask _ ih => exact ih hm hcs
  | look _ ih => exact ih m.outside hm.heap hcs hm List.prefix_rfl
  | @change cs update next hupdate _ ih =>
    have hg := hupdate m.outside hm.heap hcs
    have hchanged : (m.changeOutside update).Sound env as := hm.grow hg rfl rfl rfl
    obtain ⟨heq, hends⟩ := ih hchanged (hcs.trans hg.classes)
    exact ⟨heq, hends.mono hg.classes⟩
  | @allocate cs place next hplace _ ih =>
    obtain ⟨hg, hv⟩ := hplace m.heap hm.heap hcs
    have hplaced : (m.allocate place).2.Sound env as := hm.grow hg rfl rfl rfl
    obtain ⟨heq, hends⟩ := ih _ _ (hcs.trans hg.classes) hv hplaced List.prefix_rfl
    exact ⟨heq, hends.mono hg.classes⟩
  | poll _ ih =>
    have hpolled := ih m.poll.1 (m := m.poll.2) hm.poll
    rw [m.poll_heap] at hpolled
    exact hpolled hcs
  | @display cs v next hv _ ih =>
    obtain ⟨heq, hends⟩ := hk.display (hv.mono hcs) m hm List.prefix_rfl
    simp only [NativeCode.run, heq]
    cases hdisplay : k'.display v env m with
    | ok text m' =>
      rw [hdisplay] at hends
      obtain ⟨heq', hends'⟩ := ih text hends.1 (hcs.trans hends.2.1)
      exact ⟨heq', hends'.mono hends.2.1⟩
    | error stop m' =>
      -- The stop waits in the machine for the end of the native code.
      rw [hdisplay] at hends
      exact ⟨rfl, hends.1.park hends.2.2, hends.2.1⟩

theorem conforms_enter {code : NativeCode Value} (hcode : code.Careful env Value.Known cs) :
    Conforms env as cs (k.enter code) (k'.enter code) Value.Known := by
  intro m hm hcs
  obtain ⟨heq, hends⟩ := conforms_code hk hcode (m := m.unpark) hm.unpark hcs
  simp only [enter, heq]
  refine ⟨trivial, ?_⟩
  cases hrun : code.run k' env m.unpark with
  | ok v m' =>
    rw [hrun] at hends
    exact ⟨hends.1.unpark, hends.2.1, hends.2.2⟩
  | error f m' =>
    rw [hrun] at hends
    dsimp only
    split
    · next stop hparked =>
      exact ⟨hends.1.unpark, hends.2, hends.1.parked stop hparked⟩
    · exact (conforms_raise f m' hends.1 List.prefix_rfl).2.mono hends.2

end Evaluator

end GenLang
