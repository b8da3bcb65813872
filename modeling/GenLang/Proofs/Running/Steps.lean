import GenLang.Proofs.Running.Assembly

/-!
# The steps of a run

What an interpreter does is made of few kinds of steps of the machine. Code of a program changes the
heap, static fields and the calls in progress, asks whether it is cancelled, and enters native code;
nothing else of a machine is in its reach. An invariant of machines that each kind of step preserves
is preserved by every run.
-/

namespace GenLang

/-- Computations by the steps they are made of. None of these throws `Stop.cancelled` unasked. -/
inductive Stepwise : {α : Type} → Run α → Prop
  | pure {α : Type} (a : α) : Stepwise (pure a)
  | bind {α β : Type} {x : Run α} {f : α → Run β} (hx : Stepwise x) (hf : ∀ a, Stepwise (f a)) :
      Stepwise (x >>= f)
  | read : Stepwise (read : Run Environment)
  | get : Stepwise (get : Run Machine)
  | modifyHeap (f : Heap → Heap) : Stepwise (Run.modifyHeap f)
  | allocate (place : Heap → Value × Heap) : Stepwise (Run.allocate place)
  | modifyStatics (f : Statics → Statics) :
      Stepwise (modify fun m => { m with statics := f m.statics } : Run Unit)
  | modifyFrame (f : Frame → Frame) : Stepwise (Run.modifyFrame f)
  | checkCancelled : Stepwise Run.checkCancelled
  | raise {α : Type} (f : Fault) : Stepwise (Run.raise f : Run α)
  | throw {α : Type} {e : Stop} (he : e ≠ .cancelled) : Stepwise (throw e : Run α)
  /-- A frame of its own for a part. -/
  | inFrame {α : Type} (f : Frame) {x : Run α} (hx : Stepwise x) : Stepwise (Run.inFrame f x)
  | handle {body : Run Flow} {handler : Value → Run Flow} (hbody : Stepwise body)
      (hhandler : ∀ v, Stepwise (handler v)) : Stepwise (Evaluator.handle body handler)
  | enter {k : Evaluator} {code : NativeCode Value} (hcode : code.Offered)
      (hdisplay : ∀ v, Stepwise (k.display v)) : Stepwise (k.enter code)

namespace Stepwise

variable {α : Type}

theorem hierarchy : Stepwise Run.hierarchy :=
  .bind .read fun _ => .pure _

theorem heap : Stepwise Run.heap :=
  .bind .get fun _ => .pure _

theorem trace : Stepwise Run.trace :=
  .bind .get fun _ => .pure _

theorem ofExcept (x : Except Fault α) : Stepwise (Run.ofExcept x) := by
  cases x with
  | ok a => exact .pure a
  | error f => exact .raise f

end Stepwise

/-- An evaluator whose rules are made of the steps of the machine. -/
structure Evaluator.Stepping (k : Evaluator) : Prop where
  eval : ∀ e, Stepwise (k.eval e)
  exec : ∀ s, Stepwise (k.exec s)
  display : ∀ v, Stepwise (k.display v)

variable {α : Type} {k : Evaluator} (hk : k.Stepping)

include hk

theorem Evaluator.Stepping.describe (v : Value) : Stepwise (k.describe v) := by
  unfold Evaluator.describe
  refine .bind .hierarchy fun h => ?_
  split
  · refine .bind .heap fun heap => ?_
    dsimp only
    split
    · exact .bind (hk.display _) fun _ => .pure _
    · exact .bind (hk.display _) fun _ => .pure _
  · exact .bind (hk.display _) fun _ => .pure _

theorem Evaluator.Stepping.throwValue (v : Value) : Stepwise (k.throwValue v : Run α) := by
  unfold Evaluator.throwValue
  split
  · exact .raise _
  · exact .bind (hk.describe v) fun d => .bind .trace fun _ => .throw (by simp)

/-- What is put together over an evaluator is made of steps if the evaluator's rules are. -/
theorem Assembled.stepwise {x : Run α} (hx : Assembled k x) : Stepwise x := by
  induction hx with
  | pure a => exact .pure a
  | bind _ _ ihx ihf => exact .bind ihx ihf
  | eval e => exact hk.eval e
  | exec s => exact hk.exec s
  | display v => exact hk.display v
  | read => exact .read
  | get => exact .get
  | modifyHeap f _ => exact .modifyHeap f
  -- A change that may fail is a look, a step that may end the run, and a change.
  | update f place _ _ ih =>
    refine .bind .heap fun heap => .bind (.ofExcept _) fun c => ?_
    exact .bind (.modifyHeap _) fun _ => ih c
  | allocate place _ => exact .allocate place
  | modifyStatics f => exact .modifyStatics f
  | modifyFrame f => exact .modifyFrame f
  | checkCancelled => exact .checkCancelled
  | raise f => exact .raise f
  | outOfFuel => exact .throw (by simp)
  | throwing e => exact .bind (hk.eval e) fun v => hk.throwValue v
  | inFrame f _ ih => exact .inFrame f ih
  | handle _ _ ihbody ihhandler => exact .handle ihbody ihhandler
  | enter hcode => exact .enter hcode hk.display

omit hk

/-- By induction on the fuel: every rule is made of steps if the evaluator for the parts is. -/
theorem Evaluator.stepping_ofFuel (n : Nat) : (ofFuel n).Stepping := by
  induction n with
  | zero =>
    exact ⟨fun _ => .throw (by simp), fun _ => .throw (by simp), fun _ => .throw (by simp)⟩
  | succ n ih =>
    exact
      { eval := fun e => (Assembled.evalExpr e).stepwise ih
        exec := fun s => (Assembled.execStmt s).stepwise ih
        display := fun v => (Assembled.displayValue v).stepwise ih }

end GenLang
