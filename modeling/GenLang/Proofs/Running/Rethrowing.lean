import GenLang.Proofs.Running.Origins

/-!
# Exceptions that are thrown again

A handler that at once throws what it caught passes the exception on: its value and its name are the
same, and so is its message if the text that it shows is. For faults it always is, since their
message is a text; likewise for values whose text is shown without running code of the program.
-/

namespace GenLang

variable {α : Type} {env : Environment} {k : Evaluator} {n : Nat}

/-! ## Texts that are shown quietly -/

/-- Values whose text is shown without running code of the program. -/
inductive Heap.Quiet (h : Hierarchy) (heap : Heap) : Value → Prop
  | scalar {v : Value} (hlist : ∀ a, v ≠ .list a) (hobject : ∀ a, v ≠ .object a) : Quiet h heap v
  | object {a : Nat} (hmute : ∀ p ∈ h.findMethod? (heap.instance_ a).cls "ToString",
      p.2.isStatic = true ∨ p.2.accepts 0 = false) : Quiet h heap (.object a)
  | list {a : Nat} (hitems : ∀ v ∈ heap.items a, Quiet h heap v) : Quiet h heap (.list a)

namespace Evaluator

/-- On every machine with some heap a value is shown as a text, and nothing else happens. -/
def Shows (k : Evaluator) (env : Environment) (heap : Heap) (v : Value) (text : String) : Prop :=
  ∀ m : Machine, m.heap = heap → k.display v env m = .ok text m

/-- A value that was shown once is shown so on the same heap, unless there is less fuel. -/
def ShowsAgain (env : Environment) (heap : Heap) (v : Value) : Prop :=
  ∀ {n : Nat} {m m' : Machine} {text : String}, m.heap = heap →
    (ofFuel n).display v env m = .ok text m' →
      m' = m ∧ ∀ n', n ≤ n' → (ofFuel n').Shows env heap v text

/-- If there is fuel, the text is a function of the heap. -/
theorem showsAgain_of_eq {heap : Heap} {v : Value} (text : String)
    (h : ∀ n (m : Machine), m.heap = heap → (ofFuel (n + 1)).display v env m = .ok text m) :
    ShowsAgain env heap v := by
  intro n m m' shown hm hshown
  cases n with
  | zero => cases hshown
  | succ n =>
    rw [h n m hm] at hshown
    cases hshown
    refine ⟨rfl, fun n' hn' m₁ hm₁ => ?_⟩
    obtain ⟨p, rfl⟩ : ∃ p, n' = p + 1 := ⟨n' - 1, by omega⟩
    exact h p m₁ hm₁

theorem showsAgain_mapM {heap : Heap} {vs : List Value} (hvs : ∀ v ∈ vs, ShowsAgain env heap v)
    {m m' : Machine} {texts : List String} (hm : m.heap = heap)
    (h : vs.mapM (ofFuel n).display env m = .ok texts m') :
    m' = m ∧ ∀ n', n ≤ n' → ∀ m₁ : Machine, m₁.heap = heap →
      vs.mapM (ofFuel n').display env m₁ = .ok texts m₁ := by
  induction vs generalizing texts with
  | nil =>
    cases h
    exact ⟨rfl, fun _ _ _ _ => rfl⟩
  | cons v vs ih =>
    rw [List.mapM_cons] at h
    cases hv : (ofFuel n).display v env m with
    | error e m₁ =>
      rw [bind_of_error hv] at h
      cases h
    | ok text m₁ =>
      rw [bind_of_ok hv] at h
      -- showing an item leaves the machine as it was, so the others are shown from the same one
      obtain ⟨rfl, hagain⟩ := hvs v List.mem_cons_self hm hv
      cases hrest : vs.mapM (ofFuel n).display env m₁ with
      | error e m₂ =>
        rw [bind_of_error hrest] at h
        cases h
      | ok rest m₂ =>
        rw [bind_of_ok hrest] at h
        cases h
        obtain ⟨rfl, hrestAgain⟩ := ih (fun w hw => hvs w (List.mem_cons_of_mem v hw)) hrest
        refine ⟨rfl, fun n' hn' m₃ hm₃ => ?_⟩
        rw [List.mapM_cons, bind_of_ok (hagain n' hn' m₃ hm₃),
          bind_of_ok (hrestAgain n' hn' m₃ hm₃)]
        rfl

/-- By induction on how lists are nested. -/
theorem showsAgain_of_quiet {heap : Heap} {v : Value} (hv : heap.Quiet env.hierarchy v) :
    ShowsAgain env heap v := by
  induction hv with
  | @scalar v hlist hobject =>
    refine showsAgain_of_eq (heap.plain v) fun n m hm => ?_
    subst hm
    cases v with
    | list a => exact absurd rfl (hlist a)
    | object a => exact absurd rfl (hobject a)
    | _ => rfl
  | @object a hmute =>
    refine showsAgain_of_eq (heap.instance_ a).className fun n m hm => ?_
    subst hm
    have hheap : Run.heap env m = .ok m.heap m := rfl
    have hread : Run.hierarchy env m = .ok env.hierarchy m := rfl
    show (ofFuel n).displayValue (.object a) env m = _
    unfold displayValue
    dsimp only
    rw [bind_of_ok hheap, bind_of_ok hread]
    cases hfound : env.hierarchy.findMethod? (m.heap.instance_ a).cls "ToString" with
    | none => rfl
    | some p =>
      obtain ⟨declaring, method⟩ := p
      -- the method that would be called is static or takes arguments, so none is called
      have hno : (!method.isStatic && method.accepts 0) = false := by
        rcases hmute _ hfound with h | h
        · rw [h]
          rfl
        · rw [h, Bool.and_false]
      show (if (!method.isStatic && method.accepts 0) = true then _ else _ : Run String) env m = _
      rw [hno]
      rfl
  | @list a _ ih =>
    intro n m m' text hm h
    cases n with
    | zero => cases h
    | succ n =>
      have hitems : ∀ v ∈ (heap.items a).toList, ShowsAgain env heap v :=
        fun v hv => ih v (Array.mem_toList_iff.1 hv)
      -- Only the heap matters for what a list shows, and the items are shown with less fuel.
      have hlist (n : Nat) (m : Machine) (hm : m.heap = heap) :
          (ofFuel (n + 1)).display (.list a) env m =
            (do return Heap.bracketed (← (heap.items a).toList.mapM (ofFuel n).display) :
              Run String) env m := by
        subst hm
        rfl
      rw [hlist n m hm] at h
      cases hshown : (heap.items a).toList.mapM (ofFuel n).display env m with
      | error e m₁ =>
        rw [bind_of_error hshown] at h
        cases h
      | ok texts m₁ =>
        rw [bind_of_ok hshown] at h
        cases h
        obtain ⟨rfl, hagain⟩ := showsAgain_mapM hitems hm hshown
        refine ⟨rfl, fun n' hn' m₂ hm₂ => ?_⟩
        obtain ⟨p, rfl⟩ : ∃ p, n' = p + 1 := ⟨n' - 1, by omega⟩
        rw [hlist p m₂ hm₂, bind_of_ok (hagain p (by omega) m₂ hm₂)]
        rfl

end Evaluator

/-! ## What is known of an exception that was caught -/

/-- A class is derived from itself. -/
theorem Hierarchy.isSubclassOf_self (h : Hierarchy) (c : ClassId) : h.isSubclassOf c c = true := by
  unfold isSubclassOf ancestors Graph.chain
  simp

/-- The object that stands for a fault. -/
def Fault.object (f : Fault) (c : ClassId) : Instance :=
  ⟨c, f.name, [("Message", .str f.message)]⟩

/-- The exception of a fault has its object for a value. -/
theorem thrown_of_stopOf {c : ClassId} (hc : env.hierarchy.exceptionClass? = some c) {f : Fault}
    {m m' : Machine} {v : Value} {info : ExceptionInfo}
    (h : Run.stopOf f env m = .ok (.thrown v info) m') :
    (∃ a, v = .object a ∧ m'.heap.instance_ a = f.object c) ∧
      info.name = f.name ∧ info.message = f.message := by
  have hvalue (m : Machine) : Run.faultValue f env m = .ok (.object m.heap.objects.size)
      { m with heap := (m.heap.newObject (f.object c)).2 } := by
    have hread : Run.hierarchy env m = .ok env.hierarchy m := rfl
    unfold Run.faultValue
    rw [bind_of_ok hread, hc]
    rfl
  have hthrown {m : Machine} (h : (do
      let v ← Run.faultValue f
      return .thrown v ⟨f.name, f.message, ← Run.trace⟩ : Run Stop) env m =
        .ok (.thrown v info) m') :
      (∃ a, v = .object a ∧ m'.heap.instance_ a = f.object c) ∧
        info.name = f.name ∧ info.message = f.message := by
    rw [bind_of_ok (hvalue m)] at h
    cases h
    refine ⟨⟨_, rfl, ?_⟩, rfl, rfl⟩
    rw [Heap.instance_, Heap.newObject, Array.getD_eq_getD_getElem?, Array.getElem?_push_size]
    rfl
  unfold Run.stopOf at h
  dsimp only at h
  by_cases hcancelled : (f.name == Fault.cancelled.name) = true
  · rw [if_pos hcancelled] at h
    have hpoll : Run.pollCancelled env m = .ok m.poll.1 m.poll.2 := rfl
    rw [bind_of_ok hpoll] at h
    cases hpolled : m.poll.1 with
    | true =>
      -- Being cancelled is no exception.
      rw [hpolled] at h
      cases h
    | false =>
      rw [hpolled, if_neg Bool.false_ne_true] at h
      exact hthrown h
  · rw [if_neg hcancelled] at h
    exact hthrown h

/-- What an exception object for a fault is described by. -/
theorem Fault.described {c : ClassId} (hc : env.hierarchy.exceptionClass? = some c) {f : Fault}
    {heap : Heap} {a : Nat} (ha : heap.instance_ a = f.object c) :
    heap.exceptionName env.hierarchy (.object a) = f.name ∧
      heap.exceptionText env.hierarchy (.object a) = .str f.message := by
  have hexception : heap.isException env.hierarchy (.object a) = true := by
    rw [Heap.isException, hc, Option.any_some, ha]
    exact env.hierarchy.isSubclassOf_self c
  constructor
  · rw [Heap.exceptionName, if_pos hexception]
    show (heap.instance_ a).className = f.name
    rw [ha]
    rfl
  · show (if heap.isException env.hierarchy (.object a) = true then _ else _) = _
    rw [if_pos hexception, ha]
    rfl

/-- A value that is thrown is described by what it shows then. -/
theorem Evaluator.Throws.shown {v : Value} {m : Machine} {heap : Heap} {name message : String}
    (h : k.Throws env v m heap name message) :
    name = m.heap.exceptionName env.hierarchy v ∧
      ∃ m', k.display (m.heap.exceptionText env.hierarchy v) env m = .ok message m' ∧
        m'.heap = heap := by
  obtain ⟨m', hdescribe, hheap⟩ := h.describe
  rw [Evaluator.describe_eq] at hdescribe
  cases hv : k.display (m.heap.exceptionText env.hierarchy v) env m with
  | ok text m₁ =>
    rw [bind_of_ok hv] at hdescribe
    injection hdescribe with hpair hmachine
    obtain ⟨hname, hmessage⟩ := Prod.mk.inj hpair
    exact ⟨hname.symm, m₁, by rw [hmessage], hmachine ▸ hheap⟩
  | error e m₁ =>
    rw [bind_of_error hv] at hdescribe
    cases hdescribe

/-- An exception has the name that its value makes when it is thrown, and `null` is not thrown. -/
theorem Stop.Arises.name_eq (hsystem : env.hierarchy.exceptionClass?.isSome) {fuel : Nat}
    {heap : Heap} {v : Value} {info : ExceptionInfo}
    (h : (Stop.thrown v info).Arises env fuel heap) :
    v ≠ .null ∧ info.name = heap.exceptionName env.hierarchy v := by
  cases h with
  | raised hstop hheap =>
    obtain ⟨c, hc⟩ := Option.isSome_iff_exists.1 hsystem
    obtain ⟨⟨a, rfl, ha⟩, hname, -⟩ := thrown_of_stopOf hc hstop
    rw [hheap] at ha
    exact ⟨by simp, hname.trans (Fault.described hc ha).1.symm⟩
  | thrown _ hthrows =>
    refine ⟨hthrows.ne_null, ?_⟩
    rw [hthrows.extends_.exceptionName_eq hthrows.known]
    exact hthrows.shown.1

/-! ## Throwing again -/

theorem Frame.locals_setLocal (f : Frame) (slot : Nat) (v : Value) :
    (f.setLocal slot v).locals[slot]? = some v := by
  unfold Frame.setLocal
  by_cases h : slot < f.locals.size
  · rw [if_pos h]
    exact Array.getElem?_setIfInBounds_self_of_lt h
  · rw [if_neg h]
    have hsize : (f.locals ++ Array.replicate (slot - f.locals.size) Value.null).size = slot := by
      rw [Array.size_append, Array.size_replicate]
      omega
    show ((f.locals ++ Array.replicate (slot - f.locals.size) Value.null).push v)[slot]? = some v
    rw [Array.getElem?_push, if_pos hsize.symm]

/-- The machine on which a handler throws again, at some line, what it was given in a slot. -/
def Machine.rethrowing (m : Machine) (slot : Nat) (v : Value) (line : Nat) : Machine :=
  { m with frames := m.frames.modifyHead fun f => { f.setLocal slot v with line } }

namespace Evaluator

theorem throwValue_of_display {v : Value} (hv : v ≠ .null) {m m' : Machine} {text : String}
    (h : k.display (m.heap.exceptionText env.hierarchy v) env m = .ok text m') :
    ∃ trace, (k.throwValue v : Run α) env m =
      .error (.thrown v ⟨m.heap.exceptionName env.hierarchy v, text, trace⟩) m' := by
  have hdescribe : k.describe v env m = .ok (m.heap.exceptionName env.hierarchy v, text) m' := by
    rw [describe_eq, bind_of_ok h]
    rfl
  rw [throwValue_eq hv, bind_of_ok hdescribe]
  exact ⟨_, rfl⟩

theorem modifyFrame_eq (f : Frame → Frame) (m : Machine) :
    Run.modifyFrame f env m = .ok () { m with frames := m.frames.modifyHead f } := by
  obtain ⟨heap, statics, frames, console, patience, output, hints, parked⟩ := m
  cases frames <;> rfl

/-- A handler that at once throws what it was given does so among the same calls as the body ran. -/
theorem exec_rethrow {line l slot : Nat} {body rest : List Image.Stmt} {v : Value}
    {info : ExceptionInfo} {m m' : Machine} (hframes : m.frames ≠ [])
    (hcaught : (do Run.setLine line; (ofFuel (n + 2)).block body) env m =
      .error (.thrown v info) m')
    (hlength : m'.frames.length = m.frames.length) {e : Stop} {m'' : Machine}
    (hthrow : ((ofFuel (n + 1)).throwValue v : Run Flow) env (m'.rethrowing slot v l) =
      .error e m'') :
    (ofFuel (n + 3)).exec (.tryCatch line body (some slot) (.throw l (.slot slot) :: rest)) env m =
      .error e m'' := by
  have hline : Run.setLine line env m = .ok () _ := modifyFrame_eq _ m
  have hset : Run.setLocal slot v env m' = .ok () _ := modifyFrame_eq _ m'
  have hagain : Run.setLine l env
      { m' with frames := m'.frames.modifyHead (·.setLocal slot v) } =
      .ok () (m'.rethrowing slot v l) := by
    rw [Run.setLine, modifyFrame_eq, List.modifyHead_modifyHead]
    rfl
  -- There is a call in progress, so the handler finds in its slot what it was given.
  have hslot : (ofFuel (n + 1)).eval (.slot slot) env (m'.rethrowing slot v l) =
      .ok v (m'.rethrowing slot v l) := by
    show EStateM.Result.ok (((m'.frames.modifyHead _).head?.bind (·.locals[slot]?)).getD .null) _ =
      _
    cases hfs : m'.frames with
    | nil =>
      rw [hfs, List.length_nil] at hlength
      exact absurd (List.length_eq_zero_iff.1 hlength.symm) hframes
    | cons f fs =>
      show EStateM.Result.ok (((f.setLocal slot v).locals[slot]?).getD .null) _ = _
      rw [f.locals_setLocal]
      rfl
  have hexec : (ofFuel (n + 2)).exec (.throw l (.slot slot)) env
      { m' with frames := m'.frames.modifyHead (·.setLocal slot v) } = .error e m'' :=
    (bind_of_ok hagain).trans ((bind_of_ok hslot).trans hthrow)
  have hcaught : (ofFuel (n + 2)).block body env
      { m with frames := m.frames.modifyHead fun f => { f with line } } =
      .error (.thrown v info) m' :=
    (bind_of_ok hline).symm.trans hcaught
  have hdepth : m'.frames.length - (m.frames.modifyHead fun f => { f with line }).length = 0 := by
    rw [List.length_modifyHead, hlength, Nat.sub_self]
  refine (bind_of_ok hline).trans ?_
  show handle ((ofFuel (n + 2)).block body) (fun v => do
    Run.setLocal slot v
    (ofFuel (n + 2)).block (.throw l (.slot slot) :: rest)) env _ = _
  unfold handle
  rw [hcaught]
  dsimp only
  rw [hdepth, List.drop_zero]
  exact (bind_of_ok hset).trans (bind_of_error hexec)

/-- How an exception that was caught fares if it is thrown again on another machine: the run then
ends as `r` says. -/
structure Rethrown (env : Environment) (n : Nat) (v : Value) (info : ExceptionInfo)
    (caught again : Machine) (r : EStateM.Result Stop Machine Flow) : Prop where
  /-- It came from a fault or from a value that was thrown. -/
  arises : (Stop.thrown v info).Arises env (n + 2) caught.heap
  /-- Value and name are the same, and the message is the text that is shown now. -/
  text : ∀ text m, (ofFuel (n + 1)).display (caught.heap.exceptionText env.hierarchy v) env again =
      .ok text m → ∃ trace, r = .error (.thrown v ⟨info.name, text, trace⟩) m
  /-- What came from a fault has the same message, too. -/
  raised : ∀ f m m', Run.stopOf f env m = .ok (.thrown v info) m' → m'.heap = caught.heap →
    ∃ trace, r = .error (.thrown v ⟨info.name, info.message, trace⟩) again
  /-- So has what was thrown with a text that does not depend on code of the program. -/
  quiet : ∀ p m, p < n + 2 → (ofFuel p).Throws env v m caught.heap info.name info.message →
    m.heap.Quiet env.hierarchy (m.heap.exceptionText env.hierarchy v) →
      ∃ trace, r = .error (.thrown v ⟨info.name, info.message, trace⟩) again

/-- On a machine in good order, whatever is caught and thrown again at once fares so. -/
theorem rethrown (hsystem : env.hierarchy.exceptionClass?.isSome) {as : List Activation}
    {m m' : Machine} (hm : m.Sound env as) (hlimit : as.length ≤ env.maxCallDepth)
    (hframes : m.frames ≠ []) {line l slot : Nat} {body rest : List Image.Stmt}
    (hbody : Served env.hierarchy as (Image.Stmt.WellScopedAll · body)) {v : Value}
    {info : ExceptionInfo}
    (hcaught : (do Run.setLine line; (ofFuel (n + 2)).block body) env m =
      .error (.thrown v info) m') :
    Rethrown env n v info m' (m'.rethrowing slot v l)
      ((ofFuel (n + 3)).exec (.tryCatch line body (some slot) (.throw l (.slot slot) :: rest))
        env m) := by
  have hline : Run.setLine line env m = .ok () _ := modifyFrame_eq _ m
  obtain ⟨hm', harises⟩ : m'.Sound env as ∧ (Stop.thrown v info).Arises env (n + 2) m'.heap := by
    have hends := (conforms_setLine line m hm List.prefix_rfl).2
    rw [hline] at hends
    exact arises_of_block hends.1 hlimit hbody ((bind_of_ok hline).symm.trans hcaught)
  obtain ⟨hv, hname⟩ := harises.name_eq hsystem
  have hlength : m'.frames.length = m.frames.length := by
    rw [hm'.frames.length_eq, hm.frames.length_eq]
  -- Whatever text is shown now, the rest is determined by the heap.
  have htext {text : String} {m'' : Machine}
      (h : (ofFuel (n + 1)).display (m'.heap.exceptionText env.hierarchy v) env
        (m'.rethrowing slot v l) = .ok text m'') :
      ∃ trace, (ofFuel (n + 3)).exec
          (.tryCatch line body (some slot) (.throw l (.slot slot) :: rest)) env m =
        .error (.thrown v ⟨info.name, text, trace⟩) m'' := by
    have hshown : (ofFuel (n + 1)).display
        ((m'.rethrowing slot v l).heap.exceptionText env.hierarchy v) env
        (m'.rethrowing slot v l) = .ok text m'' := h
    obtain ⟨trace, hthrow⟩ := throwValue_of_display (α := Flow) hv hshown
    refine ⟨trace, ?_⟩
    rw [hname]
    exact exec_rethrow hframes hcaught hlength hthrow
  refine ⟨harises, fun text m'' h => htext h, fun f m₀ m₁ hstop hheap => ?_,
    fun p m₀ hp hthrows hquiet => ?_⟩
  · obtain ⟨c, hc⟩ := Option.isSome_iff_exists.1 hsystem
    obtain ⟨⟨a, rfl, ha⟩, -, hmessage⟩ := thrown_of_stopOf hc hstop
    rw [hheap] at ha
    apply htext
    rw [(Fault.described hc ha).2, hmessage]
    rfl
  · obtain ⟨-, m₁, hshown, hheap⟩ := hthrows.shown
    -- Nothing has happened since, not even when the value was described.
    obtain ⟨rfl, hagain⟩ := showsAgain_of_quiet hquiet rfl hshown
    apply htext
    rw [← hheap]
    exact hagain (n + 1) (by omega) _ hheap.symm

end Evaluator

/-! ## Every run -/

/-- A statement has its place on a machine: the machine is in good order, calls are within their
limit, and the statement is well scoped if all code is. -/
def Machine.Executes (env : Environment) (m : Machine) (s : Image.Stmt) : Prop :=
  ∃ as, m.Sound env as ∧ as.length ≤ env.maxCallDepth ∧
    Served env.hierarchy as (Image.Stmt.WellScoped · s)

open Classical in
/-- The rules of the interpreter, but a run ends where a statement is out of place. -/
noncomputable def Interpretation.executing (ending : Stop) : Interpretation :=
  { plain with
    exec := fun k s env m =>
      if m.Executes env s then k.execStmt s env m else .error ending m }

theorem Interpretation.conform_executing (env : Environment) (ending : Stop) :
    (executing ending).Conform env where
  eval := conform_plain.eval
  self := conform_plain.self
  exec := by
    intro k k' as cs s hk hs hlimit m hm hcs
    have hplace : m.Executes env s := ⟨as, hm, hlimit, hs⟩
    have hexec : (executing ending).exec k' s env m = k'.execStmt s env m := if_pos hplace
    rw [hexec]
    exact conform_plain.exec hk hs hlimit m hm hcs
  display := conform_plain.display

/-- Wherever a handler at once throws again what it caught, the exception that leaves it has the
value and the name of the one that was caught, and for a message the text that is shown now: the
same if the exception was that of a fault, if no code of the program shows the text, and whenever
the text is unchanged. A run never comes to a statement that does not have its place on the machine,
and code runs only inside of calls. -/
theorem Evaluator.rethrow_keeps_identity (hsystem : env.hierarchy.exceptionClass?.isSome) :
    (∀ n ending m, m.Between env →
      ((Interpretation.executing ending).ofFuel n).RunsAs (ofFuel n) env m) ∧
    ∀ (n : Nat) (m : Machine) line body slot l rest, m.frames ≠ [] →
      m.Executes env (.tryCatch line body (some slot) (.throw l (.slot slot) :: rest)) →
      ∀ v info m', (do Run.setLine line; (ofFuel (n + 2)).block body) env m =
          .error (.thrown v info) m' →
        Rethrown env n v info m' (m'.rethrowing slot v l)
          ((ofFuel (n + 3)).exec (.tryCatch line body (some slot) (.throw l (.slot slot) :: rest))
            env m) := by
  refine ⟨fun n ending m hm => (Interpretation.conform_executing env ending).runsAs n hm, ?_⟩
  intro n m line body slot l rest hframes hplace v info m' hcaught
  obtain ⟨as, hm, hlimit, hserved⟩ := hplace
  exact rethrown hsystem hm hlimit hframes (hserved.imp fun _ h => h.1) hcaught

namespace Evaluator

/-- A class of exceptions of its own. -/
def failure : TypeDef :=
  { (default : TypeDef) with name := "Failure", base := some ⟨some "System", "Exception"⟩ }

def failureEnvironment : Environment where
  hierarchy :=
    { libraries := [{ (default : Image) with
        name := "System"
        types := [{ (default : TypeDef) with
          name := "Exception", fields := [⟨"Message", false, none, 1⟩] }] }]
      main := { (default : Image) with
        types := [failure, { (default : TypeDef) with name := "Program", file := "M.gen" }] } }
  maxCallDepth := 8

/-- Such an exception. -/
def lost : Instance :=
  ⟨⟨1, 0⟩, "Failure", [("Message", .str "lost")]⟩

/-- A call at some line, with that object on the heap. -/
def failureMachine (line : Nat) (locals : Array Value) : Machine where
  heap := { objects := #[lost] }
  frames := [⟨1, "Program", "Main", "M.gen", line, locals, none⟩]

theorem executes_failure (s : Image.Stmt) (hs : s.WellScoped ⟨[0], false, false⟩) :
    (failureMachine 1 #[.object 0]).Executes failureEnvironment s := by
  -- One object, one frame: what is to be known of the machine is read off.
  refine ⟨[⟨⟨1, 1⟩, none, none⟩], ⟨⟨?_, ?_, ?_, ?_⟩, ?_, ?_, ?_, ?_⟩, by decide, ?_⟩
  · exact fun items h => absurd h (Array.not_mem_empty items)
  · intro o ho f hf
    obtain rfl : o = lost := by simpa [failureMachine] using ho
    obtain rfl := List.mem_singleton.1 hf
    trivial
  · exact fun v h => absurd h (Array.not_mem_empty v)
  · intro _ o ho
    obtain rfl : o = lost := by simpa [failureMachine] using ho
    show lost.fields.map (·.1) = failureEnvironment.hierarchy.fieldNames lost.cls
    decide +kernel
  · exact fun entry h => absurd h List.not_mem_nil
  · refine .cons ⟨rfl, rfl, by decide, rfl, ?_, ?_, ?_⟩ .nil
    · exact fun v h => absurd h (Option.not_mem_none v)
    · exact fun f h => absurd h (Option.not_mem_none f)
    · intro v hv
      obtain rfl : v = .object 0 := by simpa [failureMachine] using hv
      show 0 < 1
      decide
  · exact fun a h => absurd h List.not_mem_nil
  · exact fun stop h => absurd h (Option.not_mem_none stop)
  · exact fun _ => ⟨⟨[0], false, false⟩, fun h => absurd h Bool.false_ne_true, hs⟩

/-- An exception of a class of its own leaves the handler under the name of the class. -/
theorem rethrow_keeps_identity_failure :
    failureEnvironment.hierarchy.exceptionClass?.isSome ∧
      ∃ trace, (ofFuel 9).exec
          (.tryCatch 1 [.throw 2 (.slot 0)] (some 1) [.throw 3 (.slot 1)])
          failureEnvironment (failureMachine 1 #[.object 0]) =
        .error (.thrown (.object 0) ⟨"Failure", "lost", trace⟩)
          (failureMachine 3 #[.object 0, .object 0]) := by
  have hsystem : failureEnvironment.hierarchy.exceptionClass?.isSome := by decide +kernel
  have hplace := executes_failure (.tryCatch 1 [.throw 2 (.slot 0)] (some 1) [.throw 3 (.slot 1)])
    ⟨⟨List.mem_cons_self, trivial⟩, List.mem_cons_self, trivial⟩
  have hcaught : (do Run.setLine 1; (ofFuel 8).block [.throw 2 (.slot 0)]) failureEnvironment
      (failureMachine 1 #[.object 0]) =
        .error (.thrown (.object 0) ⟨"Failure", "lost", [⟨"Program", "Main", "M.gen", 2⟩]⟩)
          (failureMachine 2 #[.object 0]) := rfl
  exact ⟨hsystem, ((rethrow_keeps_identity hsystem).2 6 _ 1 _ 1 3 [] (by simp [failureMachine])
    hplace _ _ _ hcaught).text "lost" _ rfl⟩

/-- A division by zero is one still when it is thrown again. -/
example : ∃ trace m, (ofFuel 9).exec
    (.tryCatch 1 [.expr 2 (.binary .div (.const (.int 1)) (.const (.int 0)))] (some 1)
      [.throw 3 (.slot 1)])
    failureEnvironment (failureMachine 1 #[.object 0]) =
      .error (.thrown (.object 1)
        ⟨"DivideByZeroException", "Attempted to divide by zero.", trace⟩) m :=
  ⟨_, _, rfl⟩

end Evaluator

end GenLang
