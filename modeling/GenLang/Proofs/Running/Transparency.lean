import GenLang.Proofs.Running.Balance

/-!
# Native code and what passes through it

Native code knows no exceptions: a stop that has to cross it is parked in the machine, and native
code ends with a fault in its place. For those who called it this is as if the stop had passed
through. A fault of the native code's own is raised where nothing is parked, so no earlier stop can
be taken for it, and no handler ever sees that a run is cancelled.
-/

namespace GenLang

variable {α : Type} {k : Evaluator} {env : Environment}

namespace NativeCode

/-- What native code would do if exceptions passed right through it. -/
def direct (k : Evaluator) : NativeCode α → Run α
  | done a => pure a
  | fail f => Run.raise f
  | ask next => fun env => (next env).direct k env
  | look next => fun env m => (next m.outside).direct k env m
  | change update next => fun env m => next.direct k env (m.changeOutside update)
  | allocate place next => do (next (← Run.allocate place)).direct k
  | poll next => do (next (← Run.pollCancelled)).direct k
  | display v next => do (next (← k.display v)).direct k

/-- In its course, native code is left with other code to run in another state. All texts that it
asked for in between it was given. -/
inductive Reaches (k : Evaluator) (env : Environment) :
    NativeCode α → Machine → NativeCode α → Machine → Prop
  | here (code m) : Reaches k env code m code m
  | ask {next m code' m'} (h : Reaches k env (next env) m code' m') :
      Reaches k env (ask next) m code' m'
  | look {next m code' m'} (h : Reaches k env (next m.outside) m code' m') :
      Reaches k env (look next) m code' m'
  | change {update next m code' m'} (h : Reaches k env next (m.changeOutside update) code' m') :
      Reaches k env (change update next) m code' m'
  | allocate {place next m code' m'}
      (h : Reaches k env (next (m.allocate place).1) (m.allocate place).2 code' m') :
      Reaches k env (allocate place next) m code' m'
  | poll {next m code' m'} (h : Reaches k env (next m.poll.1) m.poll.2 code' m') :
      Reaches k env (poll next) m code' m'
  | display {v next text m m' code' m''} (htext : k.display v env m = .ok text m')
      (h : Reaches k env (next text) m' code' m'') : Reaches k env (display v next) m code' m''

end NativeCode

open NativeCode

theorem direct_of_reaches {code code' : NativeCode α} {m m' : Machine}
    (h : Reaches k env code m code' m') : code.direct k env m = code'.direct k env m' := by
  induction h with
  | here => rfl
  | ask _ ih | look _ ih | change _ ih | allocate _ ih | poll _ ih => exact ih
  | display htext _ ih => exact (bind_of_ok htext).trans ih

theorem parked_of_reaches (hk : k.Balanced env) {code code' : NativeCode α} {m m' : Machine}
    (h : Reaches k env code m code' m') (hm : m.parked = none) : m'.parked = none := by
  induction h with
  | here => exact hm
  | ask _ ih | look _ ih | change _ ih | allocate _ ih => exact ih hm
  | @poll _ m _ _ _ ih => exact ih ((Machine.Leaves.poll (F := Eq) m).parked hm)
  | @display v _ _ m m' _ _ htext _ ih =>
    have hdisplay := (hk.display v m).parked hm
    rw [htext] at hdisplay
    exact ih hdisplay

theorem Machine.unpark_of_none {m : Machine} (h : m.parked = none) : m.unpark = m := by
  rw [Machine.unpark, ← h]

theorem Machine.unpark_park {m : Machine} (h : m.parked = none) (stop : Stop) :
    (m.park stop).unpark = m := by
  rw [Machine.unpark, Machine.park, ← h]

/-- Where nothing is parked, native code is entered as if exceptions passed through it: by induction
on what it asks for. -/
theorem enter_of_none (hk : k.Balanced env) (code : NativeCode Value) {m : Machine}
    (hm : m.parked = none) : k.enter code env m = code.direct k env m := by
  induction code generalizing m with
  | done v =>
    show EStateM.Result.ok v m.unpark.unpark = .ok v m
    rw [Machine.unpark_of_none hm, Machine.unpark_of_none hm]
  | fail f =>
    show Run.raise f env m.unpark = Run.raise f env m
    rw [Machine.unpark_of_none hm]
  | ask next ih => exact ih env hm
  | look next ih => exact ih m.outside hm
  | change update next ih => exact ih (m := m.changeOutside update) hm
  | allocate place next ih => exact ih _ (m := (m.allocate place).2) hm
  | poll next ih =>
    -- Nothing is parked before or after the question, so the machine is unparked already.
    have hpolled := (Machine.Leaves.poll (F := Eq) m).parked hm
    have hrest := ih m.poll.1 hpolled
    unfold Evaluator.enter at hrest ⊢
    rw [Machine.unpark_of_none hpolled] at hrest
    rw [Machine.unpark_of_none hm]
    exact hrest
  | display v next ih =>
    have hdisplay := (hk.display v m).parked hm
    unfold Evaluator.enter NativeCode.run NativeCode.direct
    rw [Machine.unpark_of_none hm]
    cases hv : k.display v env m with
    | ok text m' =>
      rw [hv] at hdisplay
      have hrest := ih text hdisplay
      unfold Evaluator.enter at hrest
      rw [Machine.unpark_of_none hdisplay] at hrest
      rw [bind_of_ok hv]
      exact hrest
    | error stop m' =>
      -- The stop is parked and taken up again at once: the native code has come to its end.
      rw [hv] at hdisplay
      rw [bind_of_error hv]
      show EStateM.Result.error stop (m'.park stop).unpark = .error stop m'
      rw [Machine.unpark_park (show m'.parked = none from hdisplay)]

theorem enter_eq_direct (hk : k.Balanced env) (code : NativeCode Value) (m : Machine) :
    k.enter code env m = code.direct k env m.unpark :=
  enter_of_none hk code (m := m.unpark) rfl

/-- How native code ends: with a value, a fault of its own, or where code of the program stops that
it asked for a text. -/
inductive NativeCode.Finishes (k : Evaluator) (env : Environment) (code : NativeCode α)
    (m : Machine) : Prop
  | done {a m'} (h : Reaches k env code m (.done a) m')
  | fail {f m'} (h : Reaches k env code m (.fail f) m')
  | stopped {v next m' stop m''} (h : Reaches k env code m (.display v next) m')
      (hstop : k.display v env m' = .error stop m'')

theorem NativeCode.Finishes.of_reaches {code code' : NativeCode α} {m m' : Machine}
    (hstep : ∀ {code'' m''}, Reaches k env code' m' code'' m'' → Reaches k env code m code'' m'')
    (h : Finishes k env code' m') : Finishes k env code m := by
  cases h with
  | done h => exact .done (hstep h)
  | fail h => exact .fail (hstep h)
  | stopped h hstop => exact .stopped (hstep h) hstop

theorem finishes (code : NativeCode α) (m : Machine) : Finishes k env code m := by
  induction code generalizing m with
  | done a => exact .done (.here _ m)
  | fail f => exact .fail (.here _ m)
  | ask next ih => exact .of_reaches .ask (ih env m)
  | look next ih => exact .of_reaches .look (ih m.outside m)
  | change update next ih => exact .of_reaches .change (ih (m.changeOutside update))
  | allocate place next ih => exact .of_reaches .allocate (ih _ (m.allocate place).2)
  | poll next ih => exact .of_reaches .poll (ih m.poll.1 m.poll.2)
  | display v next ih =>
    cases hv : k.display v env m with
    | ok text m' => exact .of_reaches (.display hv) (ih text m')
    | error stop m' => exact .stopped (.here _ m) hv

/-! ## Cancellation -/

/-- Only exceptions are handled. -/
theorem handle_cancelled {body : Run Flow} {m m' : Machine}
    (h : body env m = .error .cancelled m') (handler : Value → Run Flow) :
    Evaluator.handle body handler env m = .error .cancelled m' := by
  unfold Evaluator.handle
  rw [h]

namespace Evaluator

/-- Whoever calls native code is told what happens behind it. Where code of the program stops that
native code asked for a text, the caller gets the same stop, the exception with its value and trace
or the news that the run is cancelled; where native code faults by itself, nothing is parked and the
fault is raised; and one of these ends it always has, or a value. No `try` handles that the run is
cancelled. -/
theorem native_transparent (n : Nat) (env : Environment) :
    (∀ (code : NativeCode Value) (m : Machine),
      (∀ v next m' stop m'',
        Reaches (ofFuel n) env code m.unpark (.display v next) m' →
        (ofFuel n).display v env m' = .error stop m'' →
        (ofFuel n).enter code env m = .error stop m'') ∧
      (∀ f m', Reaches (ofFuel n) env code m.unpark (.fail f) m' →
        m'.parked = none ∧ (ofFuel n).enter code env m = Run.raise f env m') ∧
      (∀ v m', Reaches (ofFuel n) env code m.unpark (.done v) m' →
        (ofFuel n).enter code env m = .ok v m') ∧
      Finishes (ofFuel n) env code m.unpark) ∧
    ∀ line body slot handler m m',
      (do Run.setLine line; (ofFuel n).block body) env m = .error .cancelled m' →
      (ofFuel (n + 1)).exec (.tryCatch line body slot handler) env m = .error .cancelled m' := by
  have hk := balanced_ofFuel env n
  refine ⟨fun code m => ⟨?_, ?_, ?_, finishes code m.unpark⟩, ?_⟩
  · intro v next m' stop m'' hreaches hstop
    rw [enter_eq_direct hk, direct_of_reaches hreaches]
    exact bind_of_error hstop
  · intro f m' hreaches
    rw [enter_eq_direct hk, direct_of_reaches hreaches]
    exact ⟨parked_of_reaches hk hreaches rfl, rfl⟩
  · intro v m' hreaches
    rw [enter_eq_direct hk, direct_of_reaches hreaches]
    rfl
  · intro line body slot handler m m' hbody
    obtain ⟨m₁, hline⟩ : ∃ m₁, Run.setLine line env m = .ok () m₁ := ⟨_, rfl⟩
    rw [bind_of_ok hline] at hbody
    exact (bind_of_ok hline).trans (handle_cancelled hbody _)

/-- The class of an object that has no text. -/
def mute : TypeDef :=
  { (default : TypeDef) with
    name := "Mute", file := "M.gen"
    methods := [{ (default : MethodDef) with
      name := "ToString", line := 1, body := some [.throw 2 (.const (.str "no text"))] }] }

def muteEnvironment : Environment :=
  { hierarchy := ⟨[], { (default : Image) with types := [mute] }⟩, maxCallDepth := 8 }

/-- A machine with such an object. -/
def muteMachine : Machine :=
  { heap := { objects := #[⟨⟨0, 0⟩, "Mute", []⟩] } }

/-- The exception of `ToString` leaves `Console.WriteLine` with its value and trace. -/
theorem native_transparent_mute :
    (ofFuel 8).enter (.native .writeLine [.object 0]) muteEnvironment muteMachine =
      .error (.thrown (.str "no text")
        ⟨"Exception", "no text", [⟨"Mute", "ToString", "M.gen", 2⟩]⟩) muteMachine :=
  ((native_transparent 8 muteEnvironment).1 _ muteMachine).1 (.object 0) _ _ _ _ (.here _ _) rfl

end Evaluator

end GenLang
