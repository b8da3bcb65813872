import GenLang.Proofs.Running.Assembly
import GenLang.Proofs.Running.Watched

/-!
# Where exceptions come from

An exception arises where a fault is raised or a value is thrown, and nothing happens to the heap
between that and the handler. Objects keep their class and the name that they show all along, so the
name under which an object was thrown is the one under which it would be thrown again.
-/

namespace GenLang

variable {α β : Type} {env : Environment} {k : Evaluator} {n : Nat}

/-! ## What a thrown value is described by -/

namespace Heap

variable (h : Hierarchy) (heap : Heap)

/-- Whether a value is an object of the class of exceptions or of one derived from it. -/
def isException : Value → Bool
  | .object a => h.exceptionClass?.any fun base => h.isSubclassOf (heap.instance_ a).cls base
  | _ => false

/-- The name of the exception that a value makes when it is thrown. -/
def exceptionName (v : Value) : String :=
  if heap.isException h v then heap.typeName v else "Exception"

/-- The value whose text is the message of the exception that a value makes when it is thrown. -/
def exceptionText : Value → Value
  | .object a =>
    if heap.isException h (.object a) then ((heap.instance_ a).get? "Message").getD .null
    else .object a
  | v => v

end Heap

theorem Evaluator.describe_eq (k : Evaluator) (v : Value) (env : Environment) (m : Machine) :
    k.describe v env m =
      (do return (m.heap.exceptionName env.hierarchy v,
          ← k.display (m.heap.exceptionText env.hierarchy v)) : Run _) env m := by
  have hread : Run.hierarchy env m = .ok env.hierarchy m := rfl
  unfold Evaluator.describe
  rw [bind_of_ok hread]
  cases v with
  | object a =>
    cases hc : env.hierarchy.exceptionClass? with
    | none =>
      have hno : m.heap.isException env.hierarchy (.object a) = false := by
        rw [Heap.isException, hc, Option.any_none]
      rw [Heap.exceptionName, Heap.exceptionText, hno]
      rfl
    | some base =>
      have hsub : m.heap.isException env.hierarchy (.object a) =
          env.hierarchy.isSubclassOf (m.heap.instance_ a).cls base := by
        rw [Heap.isException, hc, Option.any_some]
      rw [Heap.exceptionName, Heap.exceptionText, hsub]
      -- Only objects of classes of exceptions are described by their name and message.
      show (if env.hierarchy.isSubclassOf (m.heap.instance_ a).cls base = true then _ else _ :
        Run (String × String)) env m = _
      by_cases h : env.hierarchy.isSubclassOf (m.heap.instance_ a).cls base = true
      · rw [if_pos h, if_pos h, if_pos h]
        rfl
      · rw [if_neg h, if_neg h, if_neg h]
  | _ => rfl

/-- Under its address an object is still found with its class and its name. -/
theorem Heap.Extends.instance_ {heap heap' : Heap} (h : heap.Extends heap') {a : Nat}
    (ha : (Value.object a).Known heap.classes) :
    (heap'.instance_ a).cls = (heap.instance_ a).cls ∧
      (heap'.instance_ a).className = (heap.instance_ a).className := by
  have hlabel {heap : Heap} (ha : a < heap.objects.size) :
      heap.labels[a]? = some ((heap.instance_ a).cls, (heap.instance_ a).className) := by
    rw [Heap.labels, List.getElem?_map, Array.getElem?_toList, Heap.instance_,
      Array.getD_eq_getD_getElem?, Array.getElem?_eq_getElem ha]
    rfl
  have hsize {heap : Heap} : heap.labels.length = heap.objects.size := by
    rw [Heap.labels, List.length_map, Array.length_toList]
  have hold : a < heap.objects.size := heap.length_classes ▸ ha
  have hnew : a < heap'.objects.size := by
    have hle := List.IsPrefix.length_le h
    rw [hsize, hsize] at hle
    omega
  have hsame : heap'.labels[a]? = heap.labels[a]? := by
    obtain ⟨more, hmore⟩ := h
    rw [← hmore, List.getElem?_append_left (by rwa [hsize])]
  rw [hlabel hnew, hlabel hold] at hsame
  exact Prod.mk.inj (Option.some.inj hsame)

theorem Heap.Extends.exceptionName_eq {heap heap' : Heap} (h : heap.Extends heap')
    {hierarchy : Hierarchy} {v : Value} (hv : v.Known heap.classes) :
    heap'.exceptionName hierarchy v = heap.exceptionName hierarchy v := by
  cases v with
  | object a =>
    obtain ⟨hcls, hname⟩ := h.instance_ hv
    have hexception : heap'.isException hierarchy (.object a) =
        heap.isException hierarchy (.object a) := by
      rw [Heap.isException, Heap.isException, hcls]
    have htype : heap'.typeName (.object a) = heap.typeName (.object a) := hname
    rw [Heap.exceptionName, Heap.exceptionName, hexception, htype]
  | _ => rfl

/-! ## Origins -/

/-- An evaluator throws a value, and comes to its name and message on some heap. -/
structure Evaluator.Throws (k : Evaluator) (env : Environment) (v : Value) (m : Machine)
    (heap : Heap) (name message : String) : Prop where
  ne_null : v ≠ .null
  known : v.Known m.heap.classes
  describe : ∃ m', k.describe v env m = .ok (name, message) m' ∧ m'.heap = heap
  extends_ : m.heap.Extends heap

/-- Why a run stops on some heap, for evaluators with less than some fuel. -/
inductive Stop.Arises (env : Environment) (fuel : Nat) (heap : Heap) : Stop → Prop
  | raised {f : Fault} {m m' : Machine} {e : Stop} (hstop : Run.stopOf f env m = .ok e m')
      (hheap : m'.heap = heap) : Arises env fuel heap e
  | thrown {n : Nat} {v : Value} {m : Machine} {info : ExceptionInfo} (hn : n < fuel)
      (hthrows : (Evaluator.ofFuel n).Throws env v m heap info.name info.message) :
      Arises env fuel heap (.thrown v info)
  | cancelled : Arises env fuel heap .cancelled
  | outOfFuel : Arises env fuel heap .outOfFuel

theorem Stop.Arises.mono {fuel fuel' : Nat} {heap : Heap} {e : Stop}
    (h : e.Arises env fuel heap) (hle : fuel ≤ fuel') : e.Arises env fuel' heap := by
  cases h with
  | raised hstop hheap => exact .raised hstop hheap
  | thrown hn hthrows => exact .thrown (by omega) hthrows
  | cancelled => exact .cancelled
  | outOfFuel => exact .outOfFuel

/-- A machine goes on to another one, with the same objects and nothing new parked. -/
structure Machine.Continues (m m' : Machine) : Prop where
  heap : m.heap.Extends m'.heap
  parked : m.parked = none → m'.parked = none

/-- A run goes on from a machine, and it is known why it stops if it does. -/
def Run.Accounts (env : Environment) (fuel : Nat) (m : Machine) :
    EStateM.Result Stop Machine α → Prop
  | .ok _ m' => m.Continues m'
  | .error e m' => m.Continues m' ∧ e.Arises env fuel m'.heap

def Accounted (env : Environment) (fuel : Nat) (x : Run α) : Prop :=
  ∀ m : Machine, Run.Accounts env fuel m (x env m)

namespace Machine.Continues

theorem refl (m : Machine) : m.Continues m :=
  ⟨.refl _, id⟩

theorem trans {m m' m'' : Machine} (h : m.Continues m') (h' : m'.Continues m'') :
    m.Continues m'' :=
  ⟨h.heap.trans h'.heap, h'.parked ∘ h.parked⟩

theorem poll (m : Machine) : m.Continues m.poll.2 :=
  ⟨.refl _, id⟩

end Machine.Continues

theorem Run.Accounts.from {fuel : Nat} {m m' : Machine} {r : EStateM.Result Stop Machine α}
    (hr : Run.Accounts env fuel m' r) (h : m.Continues m') : Run.Accounts env fuel m r := by
  cases r with
  | ok a m'' => exact h.trans hr
  | error e m'' => exact ⟨h.trans hr.1, hr.2⟩

theorem Accounted.mono {fuel fuel' : Nat} {x : Run α} (hx : Accounted env fuel x)
    (hle : fuel ≤ fuel') : Accounted env fuel' x := by
  intro m
  have hm := hx m
  cases h : x env m with
  | ok a m' =>
    rw [h] at hm
    exact hm
  | error e m' =>
    rw [h] at hm
    exact ⟨hm.1, hm.2.mono hle⟩

/-! ## Steps -/

section

variable {fuel : Nat}

theorem accounted_pure (a : α) : Accounted env fuel (pure a) :=
  fun m => .refl m

theorem accounted_outOfFuel : Accounted env fuel (throw .outOfFuel : Run α) :=
  fun m => ⟨.refl m, .outOfFuel⟩

theorem accounted_bind {x : Run α} {f : α → Run β} (hx : Accounted env fuel x)
    (hf : ∀ a, Accounted env fuel (f a)) : Accounted env fuel (x >>= f) := by
  intro m
  have hm := hx m
  cases h : x env m with
  | ok a m' =>
    rw [h] at hm
    rw [bind_of_ok h]
    exact (hf a m').from hm
  | error e m' =>
    rw [h] at hm
    rw [bind_of_error h]
    exact hm

theorem accounted_get : Accounted env fuel (get : Run Machine) :=
  fun m => .refl m

theorem accounted_modify {f : Machine → Machine} (hf : ∀ m : Machine, m.Continues (f m)) :
    Accounted env fuel (modify f : Run Unit) :=
  hf

theorem accounted_allocate {place : Heap → Value × Heap}
    (hplace : ∀ heap : Heap, heap.Extends (place heap).2) :
    Accounted env fuel (Run.allocate place) :=
  fun m => ⟨hplace m.heap, id⟩

theorem accounted_modifyFrame (f : Frame → Frame) : Accounted env fuel (Run.modifyFrame f) := by
  rintro ⟨heap, statics, frames, console, patience, output, hints, parked⟩
  cases frames with
  | nil | cons frame rest => exact ⟨.refl _, id⟩

theorem accounted_pollCancelled : Accounted env fuel Run.pollCancelled :=
  Machine.Continues.poll

theorem accounted_checkCancelled : Accounted env fuel Run.checkCancelled := by
  refine accounted_bind accounted_pollCancelled fun cancelled => ?_
  split
  · exact fun m => ⟨.refl m, .cancelled⟩
  · exact accounted_pure _

theorem accounted_stopOf (f : Fault) : Accounted env fuel (Run.stopOf f) := by
  have hvalue : Accounted env fuel (Run.faultValue f) := by
    intro m
    have hread : Run.hierarchy env m = .ok env.hierarchy m := rfl
    unfold Run.faultValue
    rw [bind_of_ok hread]
    -- without a class for exceptions nothing is made, and the fault is all there is
    cases env.hierarchy.exceptionClass? with
    | none => exact .refl m
    | some c => exact accounted_allocate (fun heap => .newObject heap _) m
  have hthrown : Accounted env fuel (do
      let v ← Run.faultValue f
      return .thrown v ⟨f.name, f.message, ← Run.trace⟩ : Run Stop) := by
    refine accounted_bind hvalue fun v => accounted_bind ?_ fun _ => accounted_pure _
    exact accounted_bind accounted_get fun _ => accounted_pure _
  unfold Run.stopOf
  dsimp only
  split
  · refine accounted_bind accounted_pollCancelled fun cancelled => ?_
    split
    · exact accounted_pure _
    · exact hthrown
  · exact hthrown

theorem accounted_raise (f : Fault) : Accounted env fuel (Run.raise f : Run α) := by
  intro m
  have hm : Run.Accounts env fuel m (Run.stopOf f env m) := accounted_stopOf f m
  unfold Run.raise
  cases h : Run.stopOf f env m with
  | ok e m' =>
    rw [h] at hm
    rw [bind_of_ok h]
    exact ⟨hm, .raised h rfl⟩
  | error e m' =>
    rw [h] at hm
    rw [bind_of_error h]
    exact hm

theorem accounted_update {γ : Type} {f : Heap → Except Fault γ} {place : γ → Heap}
    (hf : ∀ (heap : Heap) c, f heap = .ok c → heap.Extends (place c)) {rest : γ → Run α}
    (hrest : ∀ c, Accounted env fuel (rest c)) :
    Accounted env fuel
      (do let c ← Run.ofExcept (f (← Run.heap)); Run.modifyHeap fun _ => place c; rest c) := by
  intro m
  show Run.Accounts env fuel m ((Run.ofExcept (f m.heap) >>= fun c =>
    Run.modifyHeap (fun _ => place c) >>= fun _ => rest c) env m)
  cases hc : f m.heap with
  | error fault =>
    show Run.Accounts env fuel m ((Run.raise fault >>= _) env m)
    rw [raise_bind]
    exact accounted_raise fault m
  | ok c =>
    have hm : m.Continues { m with heap := place c } := ⟨hf _ c hc, id⟩
    exact (hrest c _).from hm

theorem accounted_inFrame (f : Frame) {x : Run α} (hx : Accounted env fuel x) :
    Accounted env fuel (Run.inFrame f x) := by
  intro m
  have hm := hx { m with frames := f :: m.frames }
  unfold Run.inFrame
  cases h : x env { m with frames := f :: m.frames } with
  | ok a m' =>
    rw [h] at hm
    exact ⟨hm.heap, hm.parked⟩
  | error e m' =>
    rw [h] at hm
    exact ⟨⟨hm.1.heap, hm.1.parked⟩, hm.2⟩

theorem accounted_handle {body : Run Flow} {handler : Value → Run Flow}
    (hbody : Accounted env fuel body) (hhandler : ∀ v, Accounted env fuel (handler v)) :
    Accounted env fuel (Evaluator.handle body handler) := by
  intro m
  have hm := hbody m
  unfold Evaluator.handle
  cases h : body env m with
  | ok flow m' =>
    rw [h] at hm
    exact hm
  | error e m' =>
    rw [h] at hm
    cases e with
    | cancelled | outOfFuel => exact hm
    | thrown v info =>
      exact (hhandler v _).from ⟨hm.1.heap, hm.1.parked⟩

end

/-! ## Native code -/

/-- Native code that leaves all objects as they are, apart from what happens where it asks for
texts. -/
inductive NativeCode.Sparing {α : Type} : NativeCode α → Prop
  | done (a : α) : Sparing (.done a)
  | fail (f : Fault) : Sparing (.fail f)
  | ask {next : Environment → NativeCode α} (h : ∀ env, (next env).Sparing) : Sparing (.ask next)
  | look {next : Outside → NativeCode α} (h : ∀ o, (next o).Sparing) : Sparing (.look next)
  | change {update : Outside → Outside} {next : NativeCode α}
      (hupdate : ∀ o, (update o).heap.objects = o.heap.objects) (h : next.Sparing) :
      Sparing (.change update next)
  | allocate {place : Heap → Value × Heap} {next : Value → NativeCode α}
      (hplace : ∀ heap : Heap, heap.Extends (place heap).2) (h : ∀ v, (next v).Sparing) :
      Sparing (.allocate place next)
  | poll {next : Bool → NativeCode α} (h : ∀ cancelled, (next cancelled).Sparing) :
      Sparing (.poll next)
  | display (v : Value) {next : String → NativeCode α} (h : ∀ text, (next text).Sparing) :
      Sparing (.display v next)

namespace NativeCode

theorem Sparing.bind {code : NativeCode α} {f : α → NativeCode β} (h : code.Sparing)
    (hf : ∀ a, (f a).Sparing) : (code >>= f).Sparing := by
  induction h with
  | done a => exact hf a
  | fail f => exact .fail f
  | ask _ ih => exact .ask ih
  | look _ ih => exact .look ih
  | change hupdate _ ih => exact .change hupdate ih
  | allocate hplace _ ih => exact .allocate hplace ih
  | poll _ ih => exact .poll ih
  | display v _ ih => exact .display v ih

theorem sparing_text (v : Value) : (text v).Sparing :=
  .display v .done

theorem sparing_modifying {update : Outside → Outside}
    (hupdate : ∀ o, (update o).heap.objects = o.heap.objects) {rest : NativeCode β}
    (h : rest.Sparing) : (modify update >>= fun _ => rest).Sparing :=
  .change hupdate h

theorem sparing_place {f : Heap → Value × Heap} (hf : ∀ heap : Heap, heap.Extends (f heap).2) :
    (place f).Sparing :=
  .allocate hf .done

theorem sparing_newViews (objects : List HostObject) : (place (·.newViews objects)).Sparing :=
  sparing_place fun heap => .newViews heap objects

theorem sparing_mapM_text (vs : List Value) : (vs.mapM text).Sparing := by
  -- The texts that there are so far are collected in front of the rest.
  suffices ∀ texts, (List.mapM.loop text vs texts).Sparing from this []
  induction vs with
  | nil => exact fun texts => .done _
  | cons v vs ih => exact fun texts => (sparing_text v).bind fun text => ih (text :: texts)

/-- Arguments are counted before the rest. -/
theorem sparing_expecting {method : String} {args : List Value} {least most : Nat}
    {rest : NativeCode β} (h : rest.Sparing) :
    (expectArgs method args least most >>= fun _ => rest).Sparing := by
  refine Sparing.bind ?_ fun _ => h
  unfold expectArgs
  split
  · exact .fail _
  · exact .done ()

theorem sparing_stringArg (method : String) (args : List Value) (index : Nat) :
    (stringArg method args index).Sparing := by
  unfold stringArg
  split
  · exact .done _
  · exact .fail _

theorem sparing_intArg (method : String) (args : List Value) (index : Nat) :
    (intArg method args index).Sparing := by
  unfold intArg
  split
  · exact .done _
  · exact .fail _

theorem sparing_stringMethod (s method : String) (args : List Value) :
    (stringMethod s method args).Sparing := by
  have hstring {f : String → NativeCode Value} (hf : ∀ a, (f a).Sparing) :
      (stringArg method args 0 >>= f).Sparing :=
    (sparing_stringArg method args 0).bind hf
  have hsubstring (start : Int64) (length : Option Int64) :
      (substring s start length).Sparing := by
    unfold substring
    dsimp only
    split
    · exact .done _
    · exact .fail _
  -- Only splitting places something, and what it places is new.
  unfold stringMethod
  split
  · exact sparing_expecting (.done _)
  · exact sparing_expecting (.done _)
  · exact sparing_expecting (.done _)
  · exact sparing_expecting (hstring fun _ => .done _)
  · exact sparing_expecting (hstring fun _ => .done _)
  · exact sparing_expecting (hstring fun _ => .done _)
  · exact sparing_expecting (hstring fun _ => .done _)
  · refine sparing_expecting (hstring fun pattern => ?_)
    split
    · exact .fail _
    · exact (sparing_text _).bind fun _ => .done _
  · exact sparing_expecting (hstring fun _ => sparing_place fun _ => .of_eq rfl)
  · refine sparing_expecting ((sparing_intArg _ _ _).bind fun start => ?_)
    split
    · refine Sparing.bind ?_ fun length => hsubstring start length
      exact (sparing_intArg _ _ _).bind fun n => .done (some n)
    · exact hsubstring start none
  · exact .fail _

theorem sparing_listMethod (address : Nat) (method : String) (args : List Value) :
    (listMethod address method args).Sparing := by
  unfold listMethod
  split
  · refine sparing_expecting (sparing_modifying ?_ (.done _))
    exact fun _ => rfl
  · exact sparing_expecting (.look fun _ => .done _)
  · exact sparing_expecting (.look fun _ => .done _)
  · refine sparing_expecting ((sparing_intArg _ _ _).bind fun index => ?_)
    split
    · refine .look fun o => ?_
      show Sparing (if _ then _ else _)
      split
      · refine sparing_modifying ?_ (.done _)
        exact fun _ => rfl
      · exact .fail _
    · exact .fail _
  · refine sparing_expecting ((sparing_stringArg _ _ _).bind fun separator => .look fun o => ?_)
    exact (sparing_mapM_text _).bind fun _ => .done _
  · exact .fail _

theorem sparing_addSource (args : List Value) : (addSource args).Sparing := by
  unfold addSource
  refine sparing_expecting ((sparing_text _).bind fun hint => ?_)
  split
  · exact .fail _
  refine (sparing_text _).bind fun source => .look fun o => ?_
  show Sparing (if _ then _ else _)
  split
  · exact .fail _
  · refine .ask fun env => sparing_modifying ?_ (.done _)
    exact fun _ => rfl

theorem sparing_reportDiagnostic (args : List Value) : (reportDiagnostic args).Sparing := by
  unfold reportDiagnostic
  refine sparing_expecting ((sparing_text _).bind fun word => ?_)
  split
  · exact .fail _
  · refine (sparing_text _).bind fun code => (sparing_text _).bind fun message => ?_
    refine sparing_modifying ?_ (.done _)
    exact fun _ => rfl

/-- Whatever native code can be entered leaves the objects as they are. -/
theorem sparing_offered {code : NativeCode Value} (hcode : code.Offered) : code.Sparing := by
  -- All the code there is: of libraries, of built-in values, of the program that is looked at.
  cases hcode with
  | native method args =>
    have hwrite (s : String) : (do write s; return .null : NativeCode Value).Sparing := by
      refine sparing_modifying ?_ (.done _)
      exact fun _ => rfl
    have htext := sparing_text (argAt args 0)
    unfold native
    cases method with
    | writeLine | write => exact htext.bind fun s => hwrite _
    | toText => exact htext.bind fun _ => .done _
    | toInt =>
      refine .look fun o => ?_
      show Sparing (ofExcept (toInt o.heap (argAt args 0)) >>= fun n => done (Value.int n))
      refine Sparing.bind ?_ fun n => .done _
      cases toInt o.heap (argAt args 0) with
      | ok n => exact .done n
      | error f => exact .fail f
    | fromResult => exact sparing_place fun _ => .of_eq rfl
  | builtinMethod target method args =>
    unfold builtinMethod
    split
    · exact sparing_expecting ((sparing_text _).bind fun _ => .done _)
    · exact sparing_expecting (.done _)
    · exact sparing_stringMethod _ _ _
    · exact sparing_listMethod _ _ _
    · exact .look fun _ => .fail _
  | hostMethod object name args =>
    unfold hostMethod
    refine .ask fun env => ?_
    dsimp only
    split
    · exact sparing_addSource args
    · exact sparing_reportDiagnostic args
    · exact sparing_expecting (.poll fun _ => .done _)
    · exact sparing_expecting (sparing_newViews _)
    · refine sparing_expecting ((sparing_text _).bind fun wanted => ?_)
      split
      · exact sparing_place fun _ => .of_eq rfl
      · exact .done _
    · exact sparing_expecting ((sparing_text _).bind fun _ => sparing_newViews _)
    · exact sparing_expecting (sparing_newViews _)
    · exact sparing_expecting (sparing_newViews _)
    · split
      · exact .done _
      · exact .fail _
    · exact .fail _

/-- Native code goes on from a machine, and it is known why code stopped that is parked. -/
def Accounts (env : Environment) (fuel : Nat) (m : Machine) :
    EStateM.Result Fault Machine α → Prop
  | .ok _ m' => m.Continues m'
  | .error _ m' =>
    m.heap.Extends m'.heap ∧ ∀ stop ∈ m'.parked, stop.Arises env fuel m'.heap

theorem Accounts.from {fuel : Nat} {m m' : Machine} {r : EStateM.Result Fault Machine α}
    (hr : Accounts env fuel m' r) (h : m.Continues m') : Accounts env fuel m r := by
  cases r with
  | ok a m'' => exact h.trans hr
  | error f m'' => exact ⟨h.heap.trans hr.1, hr.2⟩

/-- By induction on what native code asks for: where nothing is parked, something is only where a
text was asked for in vain. -/
theorem Sparing.accounts {fuel : Nat} (hdisplay : ∀ v, Accounted env fuel (k.display v))
    {code : NativeCode α} (hcode : code.Sparing) {m : Machine} (hm : m.parked = none) :
    Accounts env fuel m (code.run k env m) := by
  induction hcode generalizing m with
  | done a => exact .refl m
  | fail f => exact ⟨.refl _, fun stop hstop => by simp [hm] at hstop⟩
  | ask _ ih => exact ih env hm
  | look _ ih => exact ih m.outside hm
  | @change update next hupdate _ ih =>
    have hchanged : m.Continues (m.changeOutside update) := ⟨.of_eq (hupdate m.outside), id⟩
    exact (ih (m := m.changeOutside update) hm).from hchanged
  | @allocate place next hplace _ ih =>
    have hplaced : m.Continues (m.allocate place).2 := ⟨hplace m.heap, id⟩
    exact (ih (m.allocate place).1 (m := (m.allocate place).2) hm).from hplaced
  | poll _ ih =>
    have hpolled := Machine.Continues.poll m
    exact (ih m.poll.1 (hpolled.parked hm)).from hpolled
  | @display v next _ ih =>
    have hshown := hdisplay v m
    unfold NativeCode.run
    cases hv : k.display v env m with
    | ok text m' =>
      rw [hv] at hshown
      exact (ih text (hshown.parked hm)).from hshown
    | error stop m' =>
      -- The stop is parked, and nothing is done behind it.
      rw [hv] at hshown
      refine ⟨hshown.1.heap, fun stop' hstop' => ?_⟩
      obtain rfl : stop = stop' := Option.some.inj hstop'
      exact hshown.2

end NativeCode

theorem accounted_enter {fuel : Nat} (hdisplay : ∀ v, Accounted env fuel (k.display v))
    {code : NativeCode Value} (hcode : code.Offered) : Accounted env fuel (k.enter code) := by
  intro m
  have hcode := (NativeCode.sparing_offered hcode).accounts hdisplay (m := m.unpark) rfl
  unfold Evaluator.enter
  cases hrun : code.run k env m.unpark with
  | ok v m' =>
    rw [hrun] at hcode
    exact ⟨hcode.heap, fun _ => rfl⟩
  | error f m' =>
    rw [hrun] at hcode
    dsimp only
    cases hparked : m'.parked with
    | some stop => exact ⟨⟨hcode.1, fun _ => rfl⟩, hcode.2 stop hparked⟩
    | none =>
      have hm : m.Continues m' := ⟨hcode.1, fun _ => hparked⟩
      exact (accounted_raise f m').from hm

/-! ## Rules -/

/-- An evaluator that accounts for why it stops, and that throws nothing but what evaluation with
some fuel would throw. -/
structure Evaluator.Accounts (env : Environment) (n : Nat) (k : Evaluator) : Prop where
  eval : ∀ e, Accounted env n (k.eval e)
  exec : ∀ s, Accounted env n (k.exec s)
  display : ∀ v, Accounted env n (k.display v)
  throws : ∀ {e m v m'}, k.eval e env m = .ok v m' →
    v.Known m'.heap.classes ∧ k.describe v env m' = (ofFuel n).describe v env m'

theorem accounted_describe {fuel : Nat} (hdisplay : ∀ v, Accounted env fuel (k.display v))
    (v : Value) : Accounted env fuel (k.describe v) := by
  intro m
  rw [Evaluator.describe_eq]
  exact accounted_bind (hdisplay _) (fun _ => accounted_pure _) m

theorem Evaluator.throwValue_eq {v : Value} (hv : v ≠ .null) :
    (k.throwValue v : Run α) = (do
      let d ← k.describe v
      throw (.thrown v ⟨d.1, d.2, ← Run.trace⟩)) := by
  cases v with
  | null => exact absurd rfl hv
  | _ => rfl

/-- What an evaluator finds and throws is the exception that it describes. -/
theorem accounted_throwing (hk : k.Accounts env n) (e : Image.Expr) :
    Accounted env (n + 1) (k.eval e >>= fun v => k.throwValue v : Run α) := by
  intro m
  have heval := (hk.eval e).mono (Nat.le_succ n) m
  cases h : k.eval e env m with
  | error stop m' =>
    rw [h] at heval
    rw [bind_of_error h]
    exact heval
  | ok v m' =>
    rw [h] at heval
    rw [bind_of_ok h]
    refine Run.Accounts.from ?_ heval
    -- a value that was just made is described as the evaluator without watches describes it
    obtain ⟨hknown, hsame⟩ := hk.throws h
    have hdescribe := (accounted_describe hk.display v).mono (Nat.le_succ n) m'
    by_cases hv : v = .null
    · subst hv
      exact accounted_raise .nullReference m'
    · rw [Evaluator.throwValue_eq hv]
      cases hd : k.describe v env m' with
      | error stop m'' =>
        rw [hd] at hdescribe
        rw [bind_of_error hd]
        exact hdescribe
      | ok d m'' =>
        rw [hd] at hdescribe
        rw [bind_of_ok hd]
        refine ⟨hdescribe, .thrown (Nat.lt_succ_self n) ⟨hv, hknown, ⟨m'', ?_, rfl⟩, ?_⟩⟩
        · rw [← hsame]
          exact hd
        · exact hdescribe.heap

/-- By induction on what a rule is put together from. -/
theorem Assembled.accounted (hk : k.Accounts env n) {x : Run α} (hx : Assembled k x) :
    Accounted env (n + 1) x := by
  have hle := Nat.le_succ n
  -- Along the assembly: what has less fuel is accounted for, so is what is put together from it.
  induction hx with
  | pure a => exact accounted_pure a
  | bind _ _ ihx ihf => exact accounted_bind ihx ihf
  | eval e => exact (hk.eval e).mono hle
  | exec s => exact (hk.exec s).mono hle
  | display v => exact (hk.display v).mono hle
  | read | get => exact fun m => .refl m
  | modifyHeap f hf => exact accounted_modify fun m => ⟨hf m.heap, id⟩
  | update f place hf _ ih => exact accounted_update hf ih
  | allocate place hplace => exact accounted_allocate hplace
  | modifyStatics f => exact accounted_modify fun m => ⟨.refl _, id⟩
  | modifyFrame f => exact accounted_modifyFrame f
  | checkCancelled => exact accounted_checkCancelled
  | raise f => exact accounted_raise f
  | outOfFuel => exact accounted_outOfFuel
  | throwing e => exact accounted_throwing hk e
  | inFrame f _ ih => exact accounted_inFrame f ih
  | handle _ _ ihbody ihhandler => exact accounted_handle ihbody ihhandler
  | enter hcode => exact accounted_enter (fun v => (hk.display v).mono hle) hcode

/-! ## Runs -/

open Classical in
/-- Watches for machines in good order where a value was found, and for values that are known. -/
noncomputable def Watch.findings : Watch where
  eval env _ m := decide (∃ as, m.Sound env as)
  exec _ _ := true
  display _ _ := true
  value _ m v := decide (v.Known m.heap.classes)
  stop _ _ _ := true

/-- The rules of the interpreter, watched so. -/
noncomputable def Interpretation.orderly : Interpretation :=
  Watch.findings.over .outOfFuel plain

open Classical in
theorem Watch.accepts_findings (env : Environment) : Watch.findings.Accepts env where
  eval := fun _ hm => decide_eq_true ⟨_, hm⟩
  exec := fun _ _ => rfl
  display := fun _ => rfl
  value := fun _ hv => decide_eq_true hv
  stop := fun _ _ => rfl

theorem Interpretation.conform_orderly (env : Environment) : orderly.Conform env :=
  (Watch.accepts_findings env).conform .outOfFuel conform_plain

theorem accounted_watched {fuel : Nat} {fits : Environment → Machine → Bool}
    {comes : Environment → Machine → α → Bool} {stops : Environment → Machine → Stop → Bool}
    {x : Run α} (hx : Accounted env fuel x) :
    Accounted env fuel (Run.watched .outOfFuel fits comes stops x) := by
  intro m
  have hm := hx m
  unfold Run.watched
  -- Stopping a run that goes astray ends it out of fuel, and that accounts for itself.
  by_cases hfits : fits env m = true
  · rw [if_pos hfits]
    cases h : x env m with
    | ok a m' =>
      rw [h] at hm
      dsimp only
      split
      · exact hm
      · exact ⟨hm, .outOfFuel⟩
    | error e m' =>
      rw [h] at hm
      dsimp only
      split
      · exact hm
      · exact ⟨hm.1, .outOfFuel⟩
  · rw [if_neg hfits]
    exact ⟨.refl m, .outOfFuel⟩

theorem watched_eq_ok {ending : Stop} {fits : Environment → Machine → Bool}
    {comes : Environment → Machine → α → Bool} {stops : Environment → Machine → Stop → Bool}
    {x : Run α} {m m' : Machine} {a : α}
    (h : Run.watched ending fits comes stops x env m = .ok a m') :
    fits env m' = true ∧ comes env m' a = true := by
  unfold Run.watched at h
  split at h
  · split at h
    · split at h
      · next hfits =>
        cases h
        exact Bool.and_eq_true_iff.1 hfits
      · cases h
    · split at h <;> cases h
  · cases h

namespace Interpretation

open Classical in
/-- What the watched rules find is known, and the machine is in good order. -/
theorem found_orderly {e : Image.Expr} {m m' : Machine} {v : Value}
    (h : (orderly.ofFuel n).eval e env m = .ok v m') :
    (∃ as, m'.Sound env as) ∧ v.Known m'.heap.classes := by
  cases n with
  | zero => cases h
  | succ n =>
    have hwatched : Run.watched .outOfFuel (Watch.findings.eval · e) Watch.findings.value
        Watch.findings.stop (Evaluator.evalExpr (orderly.ofFuel n) e) env m = .ok v m' := h
    obtain ⟨hfits, hcomes⟩ := watched_eq_ok hwatched
    exact ⟨of_decide_eq_true hfits, of_decide_eq_true hcomes⟩

/-- By induction on the fuel. Watched or not, values that are found are described alike. -/
theorem accounts_orderly (env : Environment) (n : Nat) : (orderly.ofFuel n).Accounts env n := by
  induction n with
  | zero =>
    exact
      { eval := fun _ => accounted_outOfFuel
        exec := fun _ => accounted_outOfFuel
        display := fun _ => accounted_outOfFuel
        throws := fun h => by cases h }
  | succ n ih =>
    refine ⟨fun e => ?_, fun s => ?_, fun v => ?_, fun h => ?_⟩
    · exact accounted_watched ((Assembled.evalExpr e).accounted ih)
    · show Accounted env (n + 1) (Run.watched _ (fun _ _ => true) (fun _ _ _ => true)
        (fun _ _ _ => true) (Evaluator.execStmt _ s))
      exact accounted_watched ((Assembled.execStmt s).accounted ih)
    · show Accounted env (n + 1) (Run.watched _ (fun _ _ => true) (fun _ _ _ => true)
        (fun _ _ _ => true) (Evaluator.displayValue _ v))
      exact accounted_watched ((Assembled.displayValue v).accounted ih)
    · obtain ⟨⟨as, hsound⟩, hknown⟩ := found_orderly h
      have halike := (conform_orderly env).alike (n + 1)
      obtain ⟨hsame, -⟩ := Evaluator.conforms_describe halike hknown _ hsound List.prefix_rfl
      exact ⟨hknown, hsame.symm⟩

end Interpretation

/-- Where statements stop on a machine in good order, it is known why. -/
theorem Evaluator.arises_of_block {as : List Activation} {m m' : Machine} (hm : m.Sound env as)
    (hlimit : as.length ≤ env.maxCallDepth) {ss : List Image.Stmt}
    (hss : Served env.hierarchy as (Image.Stmt.WellScopedAll · ss)) {e : Stop}
    (hstop : (ofFuel n).block ss env m = .error e m') :
    m'.Sound env as ∧ e.Arises env n m'.heap := by
  have hk := Interpretation.accounts_orderly env n
  have halike := (Interpretation.conform_orderly env).alike n
  obtain ⟨heq, hends⟩ := conforms_block halike hss hlimit m hm List.prefix_rfl
  rw [hstop] at heq
  rw [← heq] at hends
  -- Watched or not, it is the same run, and a watched one accounts for its end.
  have hblock (ss : List Image.Stmt) :
      Accounted env n ((Interpretation.orderly.ofFuel n).block ss) := by
    induction ss with
    | nil => exact accounted_pure _
    | cons s ss ih =>
      refine accounted_bind (hk.exec s) fun flow => ?_
      cases flow with
      | next => exact ih
      | _ => exact accounted_pure _
  have hblock := hblock ss m
  rw [← heq] at hblock
  exact ⟨hends.1, hblock.2⟩

end GenLang
