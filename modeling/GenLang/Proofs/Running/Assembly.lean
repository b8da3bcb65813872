import GenLang.Proofs.Running.Integrity

/-!
# What the rules are put together from

Every rule of the interpreter is put together from the same few things: what an evaluator finds for
the parts, reading the machine, steps of it, and native code. Besides, no step changes the class of
an object or the name that it shows, and a value is thrown only where it was found just before.
-/

namespace GenLang

variable {α β γ : Type}

/-- The class of each object and the name that it shows, by address. -/
def Heap.labels (heap : Heap) : List (ClassId × String) :=
  heap.objects.toList.map fun o => (o.cls, o.className)

/-- A heap becomes another one on which the same objects are found under the same addresses. -/
def Heap.Extends (heap heap' : Heap) : Prop :=
  heap.labels <+: heap'.labels

/-- Native code that the program's code can enter. -/
inductive NativeCode.Offered : NativeCode Value → Prop
  | native (method : Native) (args : List Value) : Offered (native method args)
  | builtinMethod (target : Value) (method : String) (args : List Value) :
      Offered (builtinMethod target method args)
  | hostMethod (object : HostObject) (name : String) (args : List Value) :
      Offered (hostMethod object name args)

/-- Computations over an evaluator for the parts. -/
inductive Assembled (k : Evaluator) : {α : Type} → Run α → Prop
  | pure {α : Type} (a : α) : Assembled k (pure a)
  | bind {α β : Type} {x : Run α} {f : α → Run β} (hx : Assembled k x)
      (hf : ∀ a, Assembled k (f a)) : Assembled k (x >>= f)
  | eval (e : Image.Expr) : Assembled k (k.eval e)
  | exec (s : Image.Stmt) : Assembled k (k.exec s)
  | display (v : Value) : Assembled k (k.display v)
  | read : Assembled k (read : Run Environment)
  | get : Assembled k (get : Run Machine)
  | modifyHeap (f : Heap → Heap) (hf : ∀ heap : Heap, heap.Extends (f heap)) :
      Assembled k (Run.modifyHeap f)
  /-- The heap is read, and what was made of it takes its place, unless that is a fault. -/
  | update {α γ : Type} (f : Heap → Except Fault γ) (place : γ → Heap)
      (hf : ∀ (heap : Heap) c, f heap = .ok c → heap.Extends (place c)) {rest : γ → Run α}
      (hrest : ∀ c, Assembled k (rest c)) :
      Assembled k (do
        let c ← Run.ofExcept (f (← Run.heap))
        Run.modifyHeap fun _ => place c
        rest c)
  | allocate (place : Heap → Value × Heap) (hplace : ∀ heap : Heap, heap.Extends (place heap).2) :
      Assembled k (Run.allocate place)
  | modifyStatics (f : Statics → Statics) :
      Assembled k (modify fun m => { m with statics := f m.statics } : Run Unit)
  | modifyFrame (f : Frame → Frame) : Assembled k (Run.modifyFrame f)
  | checkCancelled : Assembled k Run.checkCancelled
  | raise {α : Type} (f : Fault) : Assembled k (Run.raise f : Run α)
  | outOfFuel {α : Type} : Assembled k (throw .outOfFuel : Run α)
  /-- A value is found and thrown. -/
  | throwing {α : Type} (e : Image.Expr) :
      Assembled k (do k.throwValue (← k.eval e) : Run α)
  | inFrame {α : Type} (f : Frame) {x : Run α} (hx : Assembled k x) : Assembled k (Run.inFrame f x)
  | handle {body : Run Flow} {handler : Value → Run Flow} (hbody : Assembled k body)
      (hhandler : ∀ v, Assembled k (handler v)) : Assembled k (Evaluator.handle body handler)
  | enter {code : NativeCode Value} (hcode : code.Offered) : Assembled k (k.enter code)

/-! ## Heaps -/

namespace Heap.Extends

variable {heap : Heap}

theorem refl (heap : Heap) : heap.Extends heap :=
  List.prefix_rfl

theorem trans {heap' heap'' : Heap} (h : heap.Extends heap') (h' : heap'.Extends heap'') :
    heap.Extends heap'' :=
  List.IsPrefix.trans h h'

theorem of_labels {heap' : Heap} (h : heap'.labels = heap.labels) : heap.Extends heap' := by
  show heap.labels <+: heap'.labels
  exact h ▸ List.prefix_rfl

/-- What is no object may come and go. -/
theorem of_eq {heap' : Heap} (h : heap'.objects = heap.objects) : heap.Extends heap' :=
  of_labels (by rw [labels, labels, h])

theorem newObject (heap : Heap) (o : Instance) : heap.Extends (heap.newObject o).2 := by
  show heap.labels <+: (heap.objects.push o).toList.map _
  rw [Array.toList_push, List.map_append]
  exact List.prefix_append _ _

/-- An object is replaced by one of the same class that shows the same name. -/
theorem setObject {a : Nat} {o : Instance} (hcls : o.cls = (heap.instance_ a).cls)
    (hname : o.className = (heap.instance_ a).className) : heap.Extends (heap.setObject a o) := by
  by_cases ha : a < heap.objects.size
  · have hget : heap.instance_ a = heap.objects[a] := by
      rw [instance_, Array.getD_eq_getD_getElem?, Array.getElem?_eq_getElem ha]
      rfl
    have hlength : a < heap.labels.length := by
      rw [labels, List.length_map, Array.length_toList]
      exact ha
    have hlabel : heap.labels[a] = (o.cls, o.className) := by
      rw [hcls, hname, hget]
      simp [labels]
    apply of_labels
    rw [Heap.setObject, labels, Array.toList_setIfInBounds, List.map_set, ← hlabel]
    exact List.set_getElem_self hlength
  · -- Where there is no object, nothing is replaced.
    apply of_eq
    show heap.objects.setIfInBounds a o = heap.objects
    rw [Array.setIfInBounds_eq_of_size_le (by omega)]

theorem newViews (heap : Heap) (objects : List HostObject) :
    heap.Extends (heap.newViews objects).2 := by
  apply of_eq
  have hviews : ∀ placed : Array Value × Heap, placed.2.objects = heap.objects →
      (objects.foldl (fun (placed : Array Value × Heap) object =>
        (placed.1.push (placed.2.newHost object).1, (placed.2.newHost object).2))
        placed).2.objects = heap.objects := by
    induction objects with
    | nil => exact fun _ h => h
    | cons object objects ih => exact fun placed h => ih _ h
  exact hviews (#[], heap) rfl

end Heap.Extends

namespace Instance

variable {o o' : Instance} {name : String} {v : Value}

theorem className_of_set? (h : o.set? name v = some o') : o'.className = o.className := by
  rw [set?_eq_some h]

theorem className_define : (o.define name v).className = o.className := by
  unfold define
  cases hset : o.set? name v with
  | some o' => exact className_of_set? hset
  | none => rfl

end Instance

namespace Heap

variable {heap : Heap}

/-- An operation puts at most a list on the heap. -/
theorem extends_binary {op : BinaryOp} {a b : Value} {placed : Value × Heap}
    (h : heap.binary op a b = .ok placed) : heap.Extends placed.2 := by
  apply Extends.of_eq
  have harithmetic (hp : heap.arithmetic op a b = .ok placed) :
      placed.2.objects = heap.objects := by
    unfold arithmetic at hp
    split at hp
    · next x y =>
      cases hn : Value.intArithmetic op x y with
      | error f =>
        rw [hn] at hp
        cases hp
      | ok n =>
        rw [hn] at hp
        cases hp
        rfl
    · cases hp
      rfl
    · split at hp
      · cases hp
        rfl
      · cases hp
  unfold binary at h
  split at h
  case h_5 | h_6 | h_7 | h_8 =>
    split at h
    · cases h
      rfl
    · cases h
  case h_9 | h_10 | h_11 | h_12 | h_13 => exact harithmetic h
  all_goals
    cases h
    rfl

/-- A heap with another value in a field of an object, if the object has that field. -/
def writeField (heap : Heap) (a : Nat) (name : String) (v : Value) : Except Fault Heap :=
  match (heap.instance_ a).set? name v with
  | some o => .ok (heap.setObject a o)
  | none => .error (.missingMember (heap.instance_ a).className name)

theorem extends_writeField {a : Nat} {name : String} {v : Value} {heap' : Heap}
    (h : heap.writeField a name v = .ok heap') : heap.Extends heap' := by
  unfold writeField at h
  cases hset : (heap.instance_ a).set? name v with
  | none =>
    rw [hset] at h
    cases h
  | some o =>
    rw [hset] at h
    cases h
    exact .setObject (Instance.cls_of_set? hset) (Instance.className_of_set? hset)

theorem extends_setIndex {target i v : Value} {heap' : Heap}
    (h : heap.setIndex target i v = .ok heap') : heap.Extends heap' := by
  apply Extends.of_eq
  unfold setIndex at h
  split at h
  · cases h
  · split at h
    · split at h
      · cases h
        rfl
      · cases h
    · cases h
  · cases h

end Heap

/-! ## Reading and changing the machine -/

namespace Assembled

variable {k : Evaluator}

theorem mapM {f : α → Run β} (hf : ∀ a, Assembled k (f a)) (as : List α) :
    Assembled k (as.mapM f) := by
  induction as with
  | nil =>
    rw [List.mapM_nil]
    exact .pure []
  | cons a as ih =>
    rw [List.mapM_cons]
    refine .bind (hf a) fun b => ?_
    exact .bind ih fun bs => .pure _

theorem hierarchy : Assembled k Run.hierarchy :=
  .bind .read fun _ => .pure _

theorem heap : Assembled k Run.heap :=
  .bind .get fun _ => .pure _

/-- A check that raises a fault before the rest. -/
theorem raiseIf {p : Prop} [Decidable p] {f : Fault} {x : Run α} (h : Assembled k x) :
    Assembled k (if p then (Run.raise f : Run PUnit) >>= fun _ => x else x) := by
  by_cases hp : p
  · rw [if_pos hp]
    exact .bind (.raise f) fun _ => h
  · rw [if_neg hp]
    exact h

theorem ofExcept (x : Except Fault α) : Assembled k (Run.ofExcept x) := by
  cases x with
  | ok a => exact .pure a
  | error f => exact .raise f

theorem setLine (line : Nat) : Assembled k (Run.setLine line) :=
  .modifyFrame _

theorem setLocal (slot : Nat) (v : Value) : Assembled k (Run.setLocal slot v) :=
  .modifyFrame _

theorem getLocal (slot : Nat) : Assembled k (Run.getLocal slot) :=
  .bind .get fun _ => .pure _

theorem getThis : Assembled k Run.getThis :=
  .bind .get fun _ => .pure _

theorem resolve (t : TypeRef) : Assembled k (Run.resolve t) := by
  have hmodule : Assembled k Run.currentModule := by
    refine .bind .get fun m => ?_
    split
    · exact .pure _
    · exact .bind hierarchy fun _ => .pure _
  refine .bind hierarchy fun h => .bind hmodule fun i => ?_
  split
  · exact .pure _
  · exact .raise _

theorem newList (items : Array Value) : Assembled k (Run.newList items) :=
  .allocate _ fun _ => .of_eq rfl

theorem newTask (v : Value) : Assembled k (Run.newTask v) :=
  .allocate _ fun _ => .of_eq rfl

theorem newViews (objects : List HostObject) : Assembled k (Run.newViews objects) :=
  .allocate _ fun heap => .newViews heap objects

theorem callResult (m : MethodDef) (flow : Flow) : Assembled k (Evaluator.callResult m flow) := by
  unfold Evaluator.callResult
  dsimp only
  split
  · exact .pure _
  · exact newTask _
  · exact .pure _

theorem setField (address : Nat) (name : String) (v : Value) :
    Assembled k (Evaluator.setField address name v) :=
  .modifyHeap _ fun _ => .setObject Instance.cls_define Instance.className_define

theorem hostMember (object : HostObject) (name : String) :
    Assembled k (Evaluator.hostMember object name) := by
  unfold Evaluator.hostMember
  split
  case h_1 => exact .allocate _ fun _ => .of_eq rfl
  case h_10 =>
    refine .bind .read fun e => ?_
    split
    · exact newViews _
    · exact newList _
  all_goals first | exact .pure _ | exact .raise _ | exact newViews _ | exact newList _

/-! ## Calls -/

theorem block (ss : List Image.Stmt) : Assembled k (k.block ss) := by
  induction ss with
  | nil => exact .pure _
  | cons s ss ih =>
    unfold Evaluator.block
    refine .bind (.exec s) fun flow => ?_
    split
    · exact ih
    · exact .pure _

theorem call (declaring : ClassId) (m : MethodDef) (this : Option Value) (args : List Value) :
    Assembled k (k.call declaring m this args) := by
  unfold Evaluator.call
  refine .bind .checkCancelled fun _ => raiseIf (.bind .read fun e => ?_)
  dsimp only
  by_cases hnative : m.isNative = true
  · rw [if_pos hnative]
    split
    · exact .enter (.native _ _)
    · exact .raise _
  · rw [if_neg hnative]
    split
    · exact .raise _
    · refine .bind .get fun _ => raiseIf ?_
      exact .bind (.inFrame _ (block _)) fun flow => callResult m flow

theorem callStatic (c : ClassId) (name : String) (args : List Value) :
    Assembled k (k.callStatic c name args) := by
  unfold Evaluator.callStatic
  refine .bind hierarchy fun h => ?_
  split
  · split
    · exact call _ _ _ _
    · exact .raise _
  · exact .raise _

theorem callValue (target : Value) (name : String) (args : List Value) :
    Assembled k (k.callValue target name args) := by
  unfold Evaluator.callValue
  split
  · exact .raise _
  · refine .bind heap fun heap => .bind hierarchy fun h => ?_
    split
    · split
      · exact .raise _
      · exact call _ _ _ _
    · exact .enter (.builtinMethod _ _ _)
  · refine .bind .checkCancelled fun _ => .bind heap fun heap => ?_
    exact .enter (.hostMethod _ _ _)
  · exact callStatic _ _ _
  · exact .enter (.builtinMethod _ _ _)

/-! ## Objects and static fields -/

theorem initFields (h : Hierarchy) (address : Nat) (fields : List (ClassId × FieldDef)) :
    Assembled k (k.initFields h address fields) := by
  induction fields with
  | nil => exact .pure _
  | cons p rest ih =>
    obtain ⟨owner, f⟩ := p
    unfold Evaluator.initFields
    split
    · exact .bind (.inFrame _ (.eval _)) fun v => .bind (setField _ _ _) fun _ => ih
    · exact ih

theorem construct (c : ClassId) (args : List Value) : Assembled k (k.construct c args) := by
  unfold Evaluator.construct
  refine .bind .checkCancelled fun _ => .bind hierarchy fun h => ?_
  dsimp only
  refine raiseIf (.bind (.allocate _ fun heap => .newObject heap _) fun this => ?_)
  -- The constructor runs behind the initialisers, whether or not the object has fields.
  have hcall (declaring : ClassId) (m : MethodDef) : Assembled k (do
      let _ ← k.call declaring m (some this) args
      return this) :=
    .bind (call _ _ _ _) fun _ => .pure _
  cases (h.findMethod? c "init").filter (!·.2.isStatic) with
  | none =>
    split
    · exact .bind (initFields _ _ _) fun _ => raiseIf (.pure _)
    · exact raiseIf (.pure _)
  | some p =>
    obtain ⟨declaring, m⟩ := p
    split
    · exact .bind (initFields _ _ _) fun _ => hcall declaring m
    · exact hcall declaring m

theorem initStatics (h : Hierarchy) (c : ClassId) (fields : List FieldDef) :
    Assembled k (k.initStatics h c fields) := by
  induction fields with
  | nil => exact .pure _
  | cons f rest ih =>
    have hset (v : Value) : Assembled k (do
        modify fun m => { m with statics := m.statics.set c f.name v }
        k.initStatics h c rest) :=
      .bind (.modifyStatics (·.set c f.name v)) fun _ => ih
    unfold Evaluator.initStatics
    split
    · exact .bind (.inFrame _ (.eval _)) hset
    · exact hset _

theorem ensureStatics (c : ClassId) : Assembled k (k.ensureStatics c) := by
  unfold Evaluator.ensureStatics
  refine .bind .get fun m => ?_
  split
  · exact .pure _
  · refine .bind (.modifyStatics (·.enter c)) fun _ => ?_
    exact .bind hierarchy fun h => initStatics _ _ _

theorem staticOwner (c : ClassId) (name : String) : Assembled k (k.staticOwner c name) := by
  unfold Evaluator.staticOwner
  refine .bind hierarchy fun h => ?_
  split
  · exact .bind (ensureStatics _) fun _ => .pure _
  · exact .raise _

theorem readStatic (c : ClassId) (name : String) : Assembled k (k.readStatic c name) := by
  unfold Evaluator.readStatic
  refine .bind (staticOwner c name) fun owner => ?_
  exact .bind .get fun _ => .pure _

theorem writeStatic (c : ClassId) (name : String) (v : Value) :
    Assembled k (k.writeStatic c name v) := by
  unfold Evaluator.writeStatic
  exact .bind (staticOwner c name) fun owner => .modifyStatics (·.set owner name v)

theorem getMember (target : Value) (name : String) : Assembled k (k.getMember target name) := by
  unfold Evaluator.getMember
  split
  · exact .raise _
  · refine .bind heap fun heap => ?_
    dsimp only
    split
    · exact .pure _
    · exact .raise _
  · exact .bind heap fun _ => hostMember _ _
  · exact readStatic _ _
  · exact .bind heap fun _ => ofExcept _

/-- Seen as one step, the heap is read and written, unless the object lacks the field. -/
theorem setMember (target : Value) (name : String) (v : Value) :
    Assembled k (k.setMember target name v) := by
  cases target with
  | null => exact .raise _
  | type c _ => exact writeStatic _ _ _
  | object a =>
    -- Reading a heap and writing it back, as one change of it that may fail.
    have hstep : k.setMember (.object a) name v = do
        let heap ← Run.ofExcept ((← Run.heap).writeField a name v)
        Run.modifyHeap fun _ => heap
        return () := by
      funext env m
      have hheap : Run.heap env m = .ok m.heap m := rfl
      unfold Evaluator.setMember
      dsimp only
      rw [bind_of_ok hheap, bind_of_ok hheap, Heap.writeField]
      cases (m.heap.instance_ a).set? name v with
      | none => exact (congrFun (congrFun (raise_bind _ _) env) m).symm
      | some o => rfl
    rw [hstep]
    exact .update (·.writeField a name v) id (fun _ _ h => Heap.extends_writeField h)
      fun _ => .pure ()
  | _ => exact .bind heap fun _ => .raise _

theorem displayValue (v : Value) : Assembled k (k.displayValue v) := by
  unfold Evaluator.displayValue
  split
  · refine .bind heap fun heap => .bind hierarchy fun h => ?_
    split
    · split
      · exact .bind (call _ _ _ _) fun text => .bind Assembled.heap fun _ => .pure _
      · exact .pure _
    · exact .pure _
  · exact .bind heap fun heap => .bind (mapM .display _) fun _ => .pure _
  · exact .bind heap fun _ => .pure _

/-! ## Expressions -/

theorem binary (op : BinaryOp) (a b : Image.Expr) : Assembled k (k.binary op a b) := by
  unfold Evaluator.binary
  refine .bind (.eval a) fun left => ?_
  split
  · exact .pure _
  split
  · exact .pure _
  refine .bind (.eval b) fun right => ?_
  split
  · exact .bind (.display _) fun _ => .bind (.display _) fun _ => .pure _
  · exact .update (·.binary op left right) Prod.snd (fun _ _ h => Heap.extends_binary h)
      fun placed => .pure placed.1

theorem evalExpr (e : Image.Expr) : Assembled k (k.evalExpr e) := by
  have hargs (es : List Image.Expr) : Assembled k (es.mapM k.eval) := mapM .eval es
  unfold Evaluator.evalExpr
  -- Each kind of expression is put together from the parts that were looked at before.
  cases e with
  | const c => exact .pure _
  | slot slot => exact getLocal _
  | self => exact getThis
  | type t => exact .bind (resolve _) fun _ => .pure _
  | list items => exact .bind (hargs items) fun _ => newList _
  | new t args =>
    refine .bind (resolve _) fun c => ?_
    exact .bind (hargs args) fun _ => construct _ _
  | field target name => exact .bind (.eval target) fun _ => getMember _ _
  | staticField owner name => exact .bind (resolve _) fun _ => readStatic _ _
  | call target method args =>
    refine .bind (.eval target) fun v => ?_
    exact .bind (hargs args) fun _ => callValue _ _ _
  | staticCall owner method args =>
    refine .bind (resolve _) fun c => ?_
    exact .bind (hargs args) fun _ => callStatic _ _ _
  | index target i =>
    refine .bind (.eval target) fun v => .bind (.eval i) fun n => ?_
    exact .bind heap fun _ => ofExcept _
  | unary op operand => exact .bind (.eval operand) fun v => .bind heap fun _ => ofExcept _
  | binary op a b => exact binary op a b
  | await operand =>
    refine .bind (.eval operand) fun v => ?_
    split
    · exact .bind heap fun _ => .pure _
    · exact .pure _

/-! ## Statements -/

theorem assign (p : Image.Place) (value : Image.Expr) : Assembled k (k.assign p value) := by
  unfold Evaluator.assign
  cases p with
  | slot slot => exact .bind (.eval value) fun _ => setLocal _ _
  | field target name =>
    refine .bind (.eval target) fun _ => .bind (.eval value) fun _ => ?_
    exact setMember _ _ _
  | staticField owner name =>
    refine .bind (resolve _) fun c => .bind (.eval value) fun v => ?_
    exact writeStatic _ _ _
  | index target i =>
    refine .bind (.eval target) fun list => .bind (.eval i) fun n => .bind (.eval value) fun v => ?_
    exact .update (·.setIndex list n v) id (fun _ _ h => Heap.extends_setIndex h) fun _ => .pure ()

theorem whileRounds (line : Nat) (cond : Image.Expr) (body : List Image.Stmt) (n : Nat) :
    Assembled k (k.whileRounds line cond body n) := by
  induction n with
  | zero => exact .outOfFuel
  | succ n ih =>
    unfold Evaluator.whileRounds
    refine .bind .checkCancelled fun _ => .bind (setLine _) fun _ => ?_
    refine .bind (.eval cond) fun v => ?_
    split
    · exact .pure _
    · refine .bind (block body) fun flow => ?_
      cases flow with
      | breakLoop | ret v => exact .pure _
      | next | continueLoop => exact ih

theorem forRounds (slot : Nat) (body : List Image.Stmt) (items : List Value) :
    Assembled k (k.forRounds slot body items) := by
  induction items with
  | nil => exact .pure _
  | cons item rest ih =>
    unfold Evaluator.forRounds
    refine .bind .checkCancelled fun _ => .bind (setLocal _ _) fun _ => ?_
    refine .bind (block body) fun flow => ?_
    cases flow with
    | breakLoop | ret v => exact .pure _
    | next | continueLoop => exact ih

theorem execStmt (s : Image.Stmt) : Assembled k (k.execStmt s) := by
  unfold Evaluator.execStmt
  refine .bind (setLine _) fun _ => ?_
  cases s with
  | declare line slot init =>
    cases init with
    | none => exact .bind (setLocal _ _) fun _ => .pure _
    | some init => exact .bind (.eval init) fun v => .bind (setLocal _ _) fun _ => .pure _
  | assign line p e => exact .bind (assign p e) fun _ => .pure _
  | expr line e => exact .bind (.eval e) fun _ => .pure _
  | cond line c a b =>
    refine .bind (.eval c) fun v => ?_
    split
    · exact block a
    · exact block b
  -- rounds are bounded by the fuel of the evaluator, so that they are assembled by induction on it
  | whileLoop line c b => exact whileRounds line c b k.fuel
  | forLoop line slot e b =>
    refine .bind (.eval e) fun v => .bind heap fun heap => ?_
    exact .bind (ofExcept _) fun items => forRounds slot b items
  | ret line e =>
    cases e with
    | none => exact .pure _
    | some e => exact .bind (.eval e) fun _ => .pure _
  | throw line e => exact .throwing e
  | tryCatch line b slot handler =>
    refine .handle (block b) fun v => ?_
    cases slot with
    | none => exact block handler
    | some slot => exact .bind (setLocal _ _) fun _ => block handler
  | breakLoop line | continueLoop line => exact .pure _
  | block line b => exact block b

end Assembled

end GenLang
