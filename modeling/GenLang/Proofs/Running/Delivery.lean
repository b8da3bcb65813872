import GenLang.Generator
import GenLang.Proofs.Running.Steps

/-!
# What generators deliver

A source enters the delivery of a generator together with the hint that it is added under, and a
hint is taken only once. So the sources of a generator are named by its hints in their order,
whatever the generator does. A generator that nobody cancels always delivers.
-/

namespace GenLang

variable {α β : Type} {env : Environment} {k : Evaluator}

/-- A machine on which nothing is cancelled, whose sources are named by different hints, the latest
of which comes first. -/
structure Machine.Delivers (generator : String) (m : Machine) : Prop where
  patience : m.patience = none
  nodup : m.hints.Nodup
  names : m.output.sources.map (·.name) = m.hints.reverse.map (NativeCode.generatedFile generator)
  parked : m.parked ≠ some .cancelled

/-- Where a computation ends, deliveries are in order, and it was not cancelled. -/
def Run.Delivered (generator : String) : EStateM.Result Stop Machine α → Prop
  | .ok _ m => m.Delivers generator
  | .error e m => e ≠ .cancelled ∧ m.Delivers generator

theorem faultValue_eq (env : Environment) (m : Machine) (f : Fault) :
    ∃ v heap, Run.faultValue f env m = .ok v { m with heap } := by
  unfold Run.faultValue
  have hread : Run.hierarchy env m = .ok env.hierarchy m := rfl
  rw [bind_of_ok hread]
  cases env.hierarchy.exceptionClass? with
  | none => exact ⟨_, m.heap, rfl⟩
  | some c => exact ⟨_, _, rfl⟩

/-- A fault is thrown as an exception where nothing is cancelled, and only the heap changes. -/
theorem raise_of_patience {m : Machine} (hm : m.patience = none) (f : Fault) :
    ∃ v info heap, (Run.raise f : Run α) env m = .error (.thrown v info) { m with heap } := by
  obtain ⟨v, heap, hvalue⟩ := faultValue_eq env m f
  refine ⟨v, ⟨f.name, f.message, m.frames.map (·.toStackFrame)⟩, heap, ?_⟩
  have hpoll : Run.pollCancelled env m = .ok false m := by
    show EStateM.Result.ok m.poll.1 m.poll.2 = _
    rw [Machine.poll_never hm]
  have hstop : Run.stopOf f env m =
      .ok (.thrown v ⟨f.name, f.message, m.frames.map (·.toStackFrame)⟩) { m with heap } := by
    unfold Run.stopOf
    dsimp only
    split
    · rw [bind_of_ok hpoll]
      exact bind_of_ok hvalue
    · exact bind_of_ok hvalue
  exact bind_of_ok hstop

namespace Machine.Delivers

variable {generator : String} {m : Machine}

theorem start (generator : String) : (Generator.startMachine none).Delivers generator where
  patience := rfl
  nodup := List.nodup_nil
  names := rfl
  parked := by simp [Generator.startMachine]

/-- Whoever asks is not told to stop. -/
theorem poll (hm : m.Delivers generator) : m.poll = (false, m) :=
  Machine.poll_never hm.patience

theorem park (hm : m.Delivers generator) {stop : Stop} (hstop : stop ≠ .cancelled) :
    (m.park stop).Delivers generator :=
  ⟨hm.patience, hm.nodup, hm.names, by simpa [Machine.park] using hstop⟩

theorem unpark (hm : m.Delivers generator) : m.unpark.Delivers generator :=
  ⟨hm.patience, hm.nodup, hm.names, by simp [Machine.unpark]⟩

/-- A source under a hint that is not taken yet. -/
theorem add (hm : m.Delivers generator) {hint : String} (hnew : hint ∉ m.hints) (source : String) :
    (m.changeOutside fun o =>
      { o with
        hints := hint :: o.hints
        output :=
          { o.output with
            sources := o.output.sources ++ [⟨NativeCode.generatedFile generator hint, source⟩] } })
      |>.Delivers generator where
  patience := hm.patience
  nodup := List.nodup_cons.2 ⟨hnew, hm.nodup⟩
  names := by
    show (m.output.sources ++ [_]).map _ = (hint :: m.hints).reverse.map _
    rw [List.map_append, List.reverse_cons, List.map_append, hm.names]
    rfl
  parked := hm.parked

theorem checkCancelled (hm : m.Delivers generator) :
    Run.Delivered generator (Run.checkCancelled env m) := by
  have hpoll : Run.pollCancelled env m = .ok false m := by
    show EStateM.Result.ok m.poll.1 m.poll.2 = _
    rw [hm.poll]
  rw [Run.checkCancelled, bind_of_ok hpoll]
  exact hm

/-- Even the fault of that name does not cancel anything. -/
theorem raise (hm : m.Delivers generator) (f : Fault) :
    Run.Delivered generator ((Run.raise f : Run α) env m) := by
  obtain ⟨v, info, heap, hraise⟩ := raise_of_patience hm.patience f
  rw [hraise]
  exact ⟨by simp, hm.patience, hm.nodup, hm.names, hm.parked⟩

theorem modifyFrame (hm : m.Delivers generator) (f : Frame → Frame) :
    Run.Delivered generator (Run.modifyFrame f env m) := by
  obtain ⟨heap, statics, frames, console, patience, output, hints, parked⟩ := m
  cases frames with
  | nil | cons frame rest => exact ⟨hm.patience, hm.nodup, hm.names, hm.parked⟩

theorem bind {x : Run α} {f : α → Run β}
    (hx : Run.Delivered generator (x env m))
    (hf : ∀ a m', m'.Delivers generator → Run.Delivered generator (f a env m')) :
    Run.Delivered generator ((x >>= f) env m) := by
  cases h : x env m with
  | ok a m' =>
    rw [h] at hx
    rw [bind_of_ok h]
    exact hf a m' hx
  | error e m' =>
    rw [h] at hx
    rw [bind_of_error h]
    exact hx

end Machine.Delivers

/-! ## Native code -/

namespace NativeCode

theorem run_bind (code : NativeCode α) (f : α → NativeCode β) (m : Machine) :
    (code >>= f).run k env m = EStateM.bind (code.run k env) (fun a => (f a).run k env) m := by
  show (code.bind f).run k env m = _
  induction code generalizing m with
  | done | fail => rfl
  | ask next ih => exact ih env m
  | look next ih => exact ih m.outside m
  | change update next ih => exact ih (m.changeOutside update)
  | allocate place next ih => exact ih (m.allocate place).1 (m.allocate place).2
  | poll next ih => exact ih m.poll.1 m.poll.2
  | display v next ih =>
    simp only [NativeCode.bind, EStateM.bind, NativeCode.run]
    cases k.display v env m with
    | ok text m' => exact ih text m'
    | error stop m' => rfl

/-- Where native code ends. -/
def final : EStateM.Result Fault Machine α → Machine
  | .ok _ m => m
  | .error _ m => m

/-- Deliveries stay in order while native code runs. -/
def Delivers (k : Evaluator) (env : Environment) (code : NativeCode α) : Prop :=
  ∀ m : Machine, m.Delivers env.generator → (final (code.run k env m)).Delivers env.generator

theorem delivers_return (a : α) : (pure a : NativeCode α).Delivers k env :=
  fun _ hm => hm

theorem delivers_fail (f : Fault) : (fail f : NativeCode α).Delivers k env :=
  fun _ hm => hm

theorem delivers_ask {next : Environment → NativeCode α} (h : (next env).Delivers k env) :
    (ask next).Delivers k env :=
  fun m hm => h m hm

theorem delivers_look {next : Outside → NativeCode α} (h : ∀ o, (next o).Delivers k env) :
    (look next).Delivers k env :=
  fun m hm => h m.outside m hm

theorem Delivers.bind {code : NativeCode α} {f : α → NativeCode β} (h : code.Delivers k env)
    (hf : ∀ a, (f a).Delivers k env) : (code >>= f).Delivers k env := by
  intro m hm
  have hcode := h m hm
  simp only [run_bind, EStateM.bind]
  cases hrun : code.run k env m with
  | ok a m' =>
    rw [hrun] at hcode
    exact hf a m' hcode
  | error f m' =>
    rw [hrun] at hcode
    exact hcode

/-- Sources and hints are left as they are. -/
theorem delivers_modify {update : Outside → Outside}
    (hsources : ∀ o, (update o).output.sources = o.output.sources)
    (hhints : ∀ o, (update o).hints = o.hints) : (modify update).Delivers k env := by
  intro m hm
  refine ⟨hm.patience, ?_, ?_, hm.parked⟩
  -- What the update leaves alone is read through it.
  · show (update m.outside).hints.Nodup
    rw [hhints]
    exact hm.nodup
  · show (update m.outside).output.sources.map _ = (update m.outside).hints.reverse.map _
    rw [hsources, hhints]
    exact hm.names

theorem delivers_modifyHeap (f : Heap → Heap) : (modifyHeap f).Delivers k env :=
  delivers_modify (fun _ => rfl) fun _ => rfl

theorem delivers_place (f : Heap → Value × Heap) : (place f).Delivers k env :=
  fun _ hm => ⟨hm.patience, hm.nodup, hm.names, hm.parked⟩

theorem delivers_poll {next : Bool → NativeCode α} (h : (next false).Delivers k env) :
    (poll next).Delivers k env := by
  intro m hm
  rw [run, hm.poll]
  exact h m hm

theorem delivers_ofExcept (x : Except Fault α) : (ofExcept x).Delivers k env := by
  cases x with
  | ok a => exact delivers_return a
  | error f => exact delivers_fail f

/-! ### Arguments -/

/-- Arguments are counted before the rest. -/
theorem delivers_expecting {method : String} {args : List Value} {least most : Nat}
    {rest : NativeCode β} (h : rest.Delivers k env) :
    (expectArgs method args least most >>= fun _ => rest).Delivers k env := by
  refine Delivers.bind ?_ fun _ => h
  unfold expectArgs
  split
  · exact delivers_fail _
  · exact delivers_return _

theorem delivers_stringArg (method : String) (args : List Value) (index : Nat) :
    (stringArg method args index).Delivers k env := by
  unfold stringArg
  split
  · exact delivers_return _
  · exact delivers_fail _

theorem delivers_intArg (method : String) (args : List Value) (index : Nat) :
    (intArg method args index).Delivers k env := by
  unfold intArg
  split
  · exact delivers_return _
  · exact delivers_fail _

section

variable (hdisplay : ∀ v m, m.Delivers env.generator →
  Run.Delivered env.generator (k.display v env m))

include hdisplay

/-- What stops the code that shows a value is parked, and it was not cancelled. -/
theorem delivers_text (v : Value) : (text v).Delivers k env := by
  intro m hm
  have hv := hdisplay v m hm
  unfold text run
  cases hrun : k.display v env m with
  | ok text m' =>
    rw [hrun] at hv
    exact hv
  | error stop m' =>
    rw [hrun] at hv
    exact hv.2.park hv.1

theorem delivers_mapM_text (vs : List Value) : (vs.mapM text).Delivers k env := by
  -- The texts that there are so far are collected in front of the rest.
  suffices ∀ texts, (List.mapM.loop text vs texts).Delivers k env from this []
  induction vs with
  | nil => exact fun _ => delivers_return _
  | cons v vs ih =>
    exact fun texts => (delivers_text hdisplay v).bind fun text => ih (text :: texts)

/-! ### Values -/

theorem delivers_stringMethod (s method : String) (args : List Value) :
    (stringMethod s method args).Delivers k env := by
  have hstring {f : String → NativeCode Value} (hf : ∀ a, (f a).Delivers k env) :
      (stringArg method args 0 >>= f).Delivers k env :=
    (delivers_stringArg method args 0).bind hf
  have hsubstring (start : Int64) (length : Option Int64) :
      (substring s start length).Delivers k env := by
    unfold substring
    dsimp only
    split
    · exact delivers_return _
    · exact delivers_fail _
  -- Methods of texts compute values or place a list, and never add a source.
  unfold stringMethod
  split
  · exact delivers_expecting (delivers_return _)
  · exact delivers_expecting (delivers_return _)
  · exact delivers_expecting (delivers_return _)
  · exact delivers_expecting (hstring fun _ => delivers_return _)
  · exact delivers_expecting (hstring fun _ => delivers_return _)
  · exact delivers_expecting (hstring fun _ => delivers_return _)
  · exact delivers_expecting (hstring fun _ => delivers_return _)
  · refine delivers_expecting (hstring fun pattern => ?_)
    split
    · exact delivers_fail _
    · exact (delivers_text hdisplay _).bind fun _ => delivers_return _
  · exact delivers_expecting (hstring fun _ => delivers_place _)
  · refine delivers_expecting ((delivers_intArg _ _ _).bind fun start => ?_)
    split
    · refine Delivers.bind ?_ fun length => hsubstring start length
      exact (delivers_intArg _ _ _).bind fun n => delivers_return (some n)
    · exact hsubstring start none
  · exact delivers_fail _

theorem delivers_listMethod (address : Nat) (method : String) (args : List Value) :
    (listMethod address method args).Delivers k env := by
  unfold listMethod
  split
  · exact delivers_expecting ((delivers_modifyHeap _).bind fun _ => delivers_return _)
  · exact delivers_expecting (delivers_look fun _ => delivers_return _)
  · exact delivers_expecting (delivers_look fun _ => delivers_return _)
  · refine delivers_expecting ((delivers_intArg _ _ _).bind fun index => ?_)
    split
    · refine delivers_look fun o => ?_
      show Delivers k env (if _ then _ else _)
      split
      · exact (delivers_modifyHeap _).bind fun _ => delivers_return _
      · exact delivers_fail _
    · exact delivers_fail _
  · refine delivers_expecting ((delivers_stringArg _ _ _).bind fun separator => ?_)
    refine delivers_look fun o => ?_
    exact (delivers_mapM_text hdisplay _).bind fun _ => delivers_return _
  · exact delivers_fail _

theorem delivers_builtinMethod (target : Value) (method : String) (args : List Value) :
    (builtinMethod target method args).Delivers k env := by
  unfold builtinMethod
  split
  · exact delivers_expecting ((delivers_text hdisplay _).bind fun _ => delivers_return _)
  · exact delivers_expecting (delivers_return _)
  · exact delivers_stringMethod hdisplay _ _ _
  · exact delivers_listMethod hdisplay _ _ _
  · exact delivers_look fun _ => delivers_fail _

theorem delivers_native (method : Native) (args : List Value) :
    (native method args).Delivers k env := by
  have hwrite (s : String) : (do write s; return .null : NativeCode Value).Delivers k env := by
    refine Delivers.bind (delivers_modify ?_ ?_) fun _ => delivers_return _
    · exact fun _ => rfl
    · exact fun _ => rfl
  have htext := delivers_text hdisplay (argAt args 0)
  unfold native
  dsimp only
  cases method with
  | writeLine | write => exact htext.bind fun s => hwrite _
  | toText => exact htext.bind fun _ => delivers_return _
  | toInt => exact delivers_look fun _ => (delivers_ofExcept _).bind fun _ => delivers_return _
  | fromResult => exact delivers_place _

/-! ### The host of a generator -/

/-- Between the look at the hints and the entry of a new one, nothing happens. -/
theorem delivers_addSource (args : List Value) : (addSource args).Delivers k env := by
  unfold addSource
  refine delivers_expecting ((delivers_text hdisplay _).bind fun hint => ?_)
  split
  · exact delivers_fail _
  refine (delivers_text hdisplay _).bind fun source => ?_
  intro m hm
  show (final (NativeCode.run k (if m.hints.contains hint then _ else _) env m)).Delivers _
  split
  · exact hm
  · next hnew => exact hm.add (by simpa using hnew) source

theorem delivers_reportDiagnostic (args : List Value) :
    (reportDiagnostic args).Delivers k env := by
  unfold reportDiagnostic
  refine delivers_expecting ((delivers_text hdisplay _).bind fun word => ?_)
  split
  · exact delivers_fail _
  · refine (delivers_text hdisplay _).bind fun code => ?_
    refine (delivers_text hdisplay _).bind fun message => ?_
    refine Delivers.bind (delivers_modify ?_ ?_) fun _ => delivers_return _
    · exact fun _ => rfl
    · exact fun _ => rfl

theorem delivers_hostMethod (object : HostObject) (name : String) (args : List Value) :
    (hostMethod object name args).Delivers k env := by
  unfold hostMethod
  apply delivers_ask
  dsimp only
  split
  · exact delivers_addSource hdisplay args
  · exact delivers_reportDiagnostic hdisplay args
  · exact delivers_expecting (delivers_poll (delivers_return _))
  · exact delivers_expecting (delivers_place _)
  · refine delivers_expecting ((delivers_text hdisplay _).bind fun wanted => ?_)
    split
    · exact delivers_place _
    · exact delivers_return _
  · exact delivers_expecting ((delivers_text hdisplay _).bind fun _ => delivers_place _)
  · exact delivers_expecting (delivers_place _)
  · exact delivers_expecting (delivers_place _)
  · split
    · exact delivers_return _
    · exact delivers_fail _
  · exact delivers_fail _

theorem delivers_offered {code : NativeCode Value} (hcode : code.Offered) :
    code.Delivers k env := by
  cases hcode with
  | native method args => exact delivers_native hdisplay method args
  | builtinMethod target method args => exact delivers_builtinMethod hdisplay target method args
  | hostMethod object name args => exact delivers_hostMethod hdisplay object name args

end

end NativeCode

/-! ## Runs -/

/-- Entering native code takes up what it has left parked. -/
theorem delivered_enter {code : NativeCode Value} (hcode : code.Delivers k env) {m : Machine}
    (hm : m.Delivers env.generator) : Run.Delivered env.generator (k.enter code env m) := by
  have hend := hcode _ hm.unpark
  unfold Evaluator.enter
  -- A fault of native code is raised, unless it stands for a stop of the program's own code.
  cases hrun : code.run k env m.unpark with
  | ok v m' =>
    rw [hrun] at hend
    exact hend.unpark
  | error f m' =>
    rw [hrun] at hend
    cases hparked : m'.parked with
    | none =>
      simp only [hparked]
      exact hend.raise f
    | some stop =>
      simp only [hparked]
      refine ⟨?_, hend.unpark⟩
      rintro rfl
      exact hend.parked hparked

/-- By induction on what it is made of: each step leaves the deliveries in order, and none
cancels. -/
theorem Stepwise.delivered {x : Run α} (hx : Stepwise x) {m : Machine}
    (hm : m.Delivers env.generator) : Run.Delivered env.generator (x env m) := by
  induction hx generalizing m with
  | pure | read | get => exact hm
  | modifyHeap | allocate | modifyStatics => exact ⟨hm.patience, hm.nodup, hm.names, hm.parked⟩
  | modifyFrame f => exact hm.modifyFrame f
  | checkCancelled => exact hm.checkCancelled
  | raise f => exact hm.raise f
  | throw he => exact ⟨he, hm⟩
  | bind _ _ ihx ihf => exact Machine.Delivers.bind (ihx hm) fun a m' hm' => ihf a hm'
  | @inFrame _ f x _ ih =>
    -- A frame comes and goes, and it holds nothing of the delivery.
    have hbody := ih (m := { m with frames := f :: m.frames })
      ⟨hm.patience, hm.nodup, hm.names, hm.parked⟩
    unfold Run.inFrame
    cases hrun : x env { m with frames := f :: m.frames } with
    | ok a m' =>
      rw [hrun] at hbody
      exact ⟨hbody.patience, hbody.nodup, hbody.names, hbody.parked⟩
    | error e m' =>
      rw [hrun] at hbody
      exact ⟨hbody.1, hbody.2.patience, hbody.2.nodup, hbody.2.names, hbody.2.parked⟩
  | @handle body handler _ _ ihbody ihhandler =>
    have hbody := ihbody hm
    unfold Evaluator.handle
    cases hrun : body env m with
    | ok flow m' =>
      rw [hrun] at hbody
      exact hbody
    | error e m' =>
      rw [hrun] at hbody
      cases e with
      | cancelled | outOfFuel => exact hbody
      | thrown v info =>
        -- The handler goes on from what the body has delivered.
        apply ihhandler v
        exact ⟨hbody.2.patience, hbody.2.nodup, hbody.2.names, hbody.2.parked⟩
  | enter hcode _ ih =>
    exact delivered_enter (NativeCode.delivers_offered (fun v _ hm' => ih v hm') hcode) hm

namespace Generator

theorem stepwise_generate (n : Nat) (c : ClassId) : Stepwise (generate (.ofFuel n) c) := by
  have hk := Evaluator.stepping_ofFuel n
  refine .bind (.allocate _) fun context => ?_
  refine .bind ((Assembled.construct c []).stepwise hk) fun generator => ?_
  exact .bind ((Assembled.callValue _ _ _).stepwise hk) fun _ => .pure _

/-- The hints under which a generator adds sources for a program, in their order. One that fails has
none. -/
def hints (g : Generator) (model : SemanticModel) : List String :=
  match g.load with
  | .error _ => []
  | .ok (h, c) =>
    let env : Environment :=
      { hierarchy := h, maxCallDepth := g.limits.maxCallDepth, generator := g.className, model }
    match (startMachine none).run env (generate g.evaluator c) with
    | (.ok _, m) => m.hints.reverse
    | (.error _, _) => []

/-- A generator that nobody cancels delivers, and its sources are named by its hints, of which no
two are the same. -/
theorem execute_delivers (g : Generator) (model : SemanticModel) :
    ∃ output, (g.execute model none).1 = .ok (output, none) ∧
      output.sources.map (·.name) =
        (g.hints model).map (NativeCode.generatedFile g.className) ∧
      (g.hints model).Nodup := by
  unfold execute hints
  simp only [Patience.check_none]
  cases g.load with
  | error e => exact ⟨_, rfl, rfl, List.nodup_nil⟩
  | ok loaded =>
    obtain ⟨h, c⟩ := loaded
    -- A run starts with nothing delivered, and each step keeps names and sources together.
    have hdelivered := @Stepwise.delivered _
      { hierarchy := h, maxCallDepth := g.limits.maxCallDepth, generator := g.className, model }
      _ (stepwise_generate g.limits.fuel c) _ (Machine.Delivers.start g.className)
    simp only [Machine.run, evaluator]
    generalize generate (.ofFuel g.limits.fuel) c _ (startMachine none) = result at hdelivered ⊢
    cases result with
    | ok a m =>
      refine ⟨m.output, congrArg (fun left => Except.ok (m.output, left)) hdelivered.patience,
        hdelivered.names, ?_⟩
      exact List.pairwise_reverse.2 (hdelivered.nodup.imp Ne.symm)
    | error e m =>
      cases e with
      | cancelled => exact absurd rfl hdelivered.1
      -- a run that fails delivers nothing, whatever it had added
      | thrown | outOfFuel =>
        refine ⟨_, congrArg (fun left => Except.ok (_, left)) hdelivered.2.patience, rfl,
          List.nodup_nil⟩

end Generator

end GenLang
