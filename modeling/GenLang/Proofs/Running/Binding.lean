import GenLang.Proofs.Linking.Holds
import GenLang.Proofs.Running.Balance

/-!
# Binding parameters

Arguments are counted against the parameters without a default value, but are bound from the left,
so that the two agree just where these parameters come first. A parameter for which nothing is
supplied is `null`.
-/

namespace GenLang

namespace MethodDef

/-- What is supplied for a parameter: the argument passed for it, or else its default value. -/
def supplied? (m : MethodDef) (args : List Value) (i : Nat) : Option Value :=
  args[i]?.or ((m.params[i]?.bind (·.default)).map Value.ofLiteral)

/-- Behind a parameter with a default value there are only such. -/
def DefaultsTrail (m : MethodDef) : Prop :=
  m.params.Pairwise fun p q => p.default.isSome → q.default.isSome

variable {m : MethodDef}

theorem requiredParams_le : m.requiredParams ≤ m.params.length :=
  List.length_filter_le _ _

theorem accepts_iff {count : Nat} :
    m.accepts count ↔ m.requiredParams ≤ count ∧ count ≤ m.params.length := by
  rw [accepts, Bool.and_eq_true, decide_eq_true_eq, decide_eq_true_eq]

/-- By induction on the parameters: one without a default value in front is counted and dropped, and
behind one with a default value there are only such. -/
theorem DefaultsTrail.default (h : m.DefaultsTrail) :
    ∀ p ∈ m.params.drop m.requiredParams, p.default.isSome := by
  revert h
  unfold DefaultsTrail requiredParams
  generalize m.params = ps
  induction ps with
  | nil => exact fun _ p hp => absurd hp List.not_mem_nil
  | cons p ps ih =>
    intro htrail
    obtain ⟨hfirst, hrest⟩ := List.pairwise_cons.1 htrail
    cases hp : p.default with
    | none =>
      rw [List.filter_cons_of_pos (by simp [hp]), List.length_cons, List.drop_succ_cons]
      exact ih hrest
    | some l =>
      intro q hq
      rcases List.mem_cons.1 (List.mem_of_mem_drop hq) with rfl | hq
      · rw [hp]
        rfl
      · exact hfirst q hq (by rw [hp]; rfl)

/-- If the parameters behind as many as have no default value have one, the others have none. -/
theorem default_eq_none (h : ∀ p ∈ m.params.drop m.requiredParams, p.default.isSome) :
    ∀ p ∈ m.params.take m.requiredParams, p.default = none := by
  unfold requiredParams at h ⊢
  have hend : (m.params.drop (m.params.filter (·.default.isNone)).length).filter
      (·.default.isNone) = [] := by
    rw [List.filter_eq_nil_iff]
    intro p hp hnone
    rw [Option.isNone_iff_eq_none] at hnone
    have hsome := h p hp
    rw [hnone] at hsome
    cases hsome
  have hsplit := List.take_append_drop (m.params.filter (·.default.isNone)).length m.params
  have hcount := congrArg (fun ps => (ps.filter (·.default.isNone)).length) hsplit
  simp only [List.filter_append, hend, List.append_nil] at hcount
  have hbegin : ∀ p ∈ m.params.take (m.params.filter (·.default.isNone)).length,
      p.default.isNone := by
    rw [← List.length_filter_eq_length_iff, hcount, List.length_take,
      Nat.min_eq_left (List.length_filter_le _ _)]
  exact fun p hp => Option.isNone_iff_eq_none.1 (hbegin p hp)

/-- As many parameters as have no default value are the first ones. -/
theorem defaultsTrail_iff :
    m.DefaultsTrail ↔ ∀ p ∈ m.params.drop m.requiredParams, p.default.isSome := by
  refine ⟨DefaultsTrail.default, fun hdefault => ?_⟩
  rw [DefaultsTrail, ← List.take_append_drop m.requiredParams m.params, List.pairwise_append]
  refine ⟨?_, ?_, fun p _ q hq _ => hdefault q hq⟩
  · refine List.pairwise_of_forall_mem_list fun p hp q _ hsome => ?_
    rw [default_eq_none hdefault p hp] at hsome
    cases hsome
  · exact List.pairwise_of_forall_mem_list fun p _ q hq _ => hdefault q hq

/-- Something is supplied for every parameter, whatever number of arguments is accepted, just where
parameters with default values come last. -/
theorem supplied_iff : m.DefaultsTrail ↔
    ∀ args : List Value, m.accepts args.length → ∀ i < m.params.length,
      (m.supplied? args i).isSome := by
  rw [defaultsTrail_iff]
  constructor
  · intro hdefault args haccepts i hi
    rw [supplied?, Option.isSome_or, Bool.or_eq_true]
    by_cases hargs : i < args.length
    · rw [List.getElem?_eq_getElem hargs]
      exact .inl rfl
    · have hmem : m.params[i] ∈ m.params.drop m.requiredParams := by
        have hrequired := (accepts_iff.1 haccepts).1
        exact List.mem_drop_iff_getElem.2 ⟨i - m.requiredParams, by omega, by
          congr 1
          omega⟩
      rw [List.getElem?_eq_getElem hi, Option.bind_some, Option.isSome_map]
      exact .inr (hdefault _ hmem)
  · intro hsupplied p hp
    obtain ⟨i, hi, rfl⟩ := List.mem_drop_iff_getElem.1 hp
    -- With the fewest arguments that are accepted, only default values are left for the others.
    have hfewest : m.accepts (List.replicate m.requiredParams Value.null).length := by
      rw [List.length_replicate]
      exact accepts_iff.2 ⟨Nat.le_refl _, requiredParams_le⟩
    rw [Nat.add_comm] at hi
    have hlast := hsupplied _ hfewest (m.requiredParams + i) hi
    rwa [supplied?, List.getElem?_eq_none (by simp), Option.none_or, Option.isSome_map,
      List.getElem?_eq_getElem hi, Option.bind_some] at hlast

end MethodDef

/-- The compiler has nothing to say of a call just where the run accepts it. -/
theorem Lowering.checkArity_eq_iff {m : MethodDef} {count : Nat} {span : Text.Span}
    {c : LoweringContext} {s : LoweringState} :
    (((Lowering.checkArity (.ofDef m) count span).run c).run s).2 = s ↔ m.accepts count := by
  unfold checkArity
  rw [MethodSymbol.accepts_ofDef]
  split
  · next haccepts => exact iff_of_true rfl haccepts
  · next haccepts =>
    refine iff_of_false (fun heq => ?_) haccepts
    have hsize := congrArg (·.diagnostics.size) heq
    exact Nat.succ_ne_self _ ((Array.size_push _).symm.trans hsize)

namespace Evaluator

variable {m : MethodDef} {args : List Value}

theorem length_bindArgs (h : args.length ≤ m.params.length) :
    (bindArgs m args).length = m.params.length := by
  rw [bindArgs, List.length_append, List.length_map, List.length_drop]
  omega

/-- A parameter for which nothing is supplied is `null`. -/
theorem bindArgs_getElem? {i : Nat} (hi : i < m.params.length) :
    (bindArgs m args)[i]? = some ((m.supplied? args i).getD .null) := by
  rw [bindArgs, MethodDef.supplied?]
  by_cases hargs : i < args.length
  · rw [List.getElem?_append_left hargs, List.getElem?_eq_getElem hargs]
    rfl
  · rw [List.getElem?_append_right (by omega), List.getElem?_map, List.getElem?_drop,
      Nat.add_sub_cancel' (by omega), List.getElem?_eq_getElem hi, List.getElem?_eq_none (by omega),
      Option.none_or, Option.map_some, Option.bind_some]
    cases m.params[i].default <;> rfl

/-- The first slots are those of the parameters. -/
theorem startLocals_getElem? {i : Nat} (hi : i < args.length) :
    (startLocals m args)[i]? = args[i]? := by
  rw [startLocals, List.getElem?_toArray, List.getElem?_append_left hi]

/-- Why a call runs neither native code nor a body. -/
inductive Refused (env : Environment) (declaring : ClassId) (m : MethodDef) (count depth : Nat) :
    Fault → Prop
  | argumentCount (hrefused : ¬m.accepts count) :
    Refused env declaring m count depth (.argumentCount m.name count)
  | notBound (hnative : m.isNative)
      (hbound : env.natives (env.hierarchy.typeDef declaring).name m.name = none) :
    Refused env declaring m count depth (.notBound (env.hierarchy.typeDef declaring).name m.name)
  | notImplemented (hnative : ¬m.isNative) (hbody : m.body = none) :
    Refused env declaring m count depth
      (.notImplemented (env.hierarchy.typeDef declaring).name m.name)
  | stackOverflow (hnative : ¬m.isNative) (hbody : m.body.isSome)
      (hdepth : env.maxCallDepth ≤ depth) :
    Refused env declaring m count depth .stackOverflow

/-- How a call goes behind the check for cancellation: it is refused, or native code gets a value
for each parameter, or the body runs in a frame with such a value in the slot of each parameter. -/
inductive CallGoes (k : Evaluator) (env : Environment) (declaring : ClassId) (m : MethodDef)
    (this : Option Value) (args : List Value) (machine : Machine) :
    EStateM.Result Stop Machine Value → Prop
  | cancelled (hcancelled : machine.poll.1 = true) :
    CallGoes k env declaring m this args machine (.error .cancelled machine.poll.2)
  | refused {f : Fault} (hrunning : machine.poll.1 = false)
      (hrefused : Refused env declaring m args.length machine.frames.length f) :
    CallGoes k env declaring m this args machine ((Run.raise f : Run Value) env machine.poll.2)
  | native {n : Native} {vs : List Value} (hrunning : machine.poll.1 = false)
      (haccepts : m.accepts args.length) (hnative : m.isNative)
      (hname : env.natives (env.hierarchy.typeDef declaring).name m.name = some n)
      (hlength : vs.length = m.params.length)
      (hbound : ∀ i < m.params.length, vs[i]? = some ((m.supplied? args i).getD .null)) :
    CallGoes k env declaring m this args machine
      (k.enter (.native n (this.toList ++ vs)) env machine.poll.2)
  | body {body : List Image.Stmt} {locals : Array Value} (hrunning : machine.poll.1 = false)
      (haccepts : m.accepts args.length) (hnative : ¬m.isNative) (hbody : m.body = some body)
      (hdepth : machine.frames.length < env.maxCallDepth)
      (hbound : ∀ i < m.params.length, locals[i]? = some ((m.supplied? args i).getD .null)) :
    CallGoes k env declaring m this args machine
      ((Run.inFrame (frameOf env.hierarchy declaring m.name m.line this locals) (k.block body) >>=
        callResult m) env machine.poll.2)

variable {k : Evaluator} {env : Environment} {declaring : ClassId} {this : Option Value}
  {machine : Machine}

theorem checkCancelled_of_cancelled (h : machine.poll.1 = true) :
    Run.checkCancelled env machine = .error .cancelled machine.poll.2 := by
  have hpoll : Run.pollCancelled env machine = .ok true machine.poll.2 := h ▸ rfl
  exact bind_of_ok hpoll

theorem checkCancelled_of_running (h : machine.poll.1 = false) :
    Run.checkCancelled env machine = .ok () machine.poll.2 := by
  have hpoll : Run.pollCancelled env machine = .ok false machine.poll.2 := h ▸ rfl
  exact bind_of_ok hpoll

/-- A check that raises a fault before the rest. -/
theorem goes_raiseIf {p : Prop} [Decidable p] {f : Fault} {x : Run Value}
    (hrunning : machine.poll.1 = false)
    (hrefused : p → Refused env declaring m args.length machine.frames.length f)
    (h : ¬p → k.CallGoes env declaring m this args machine (x env machine.poll.2)) :
    k.CallGoes env declaring m this args machine
      ((if p then (Run.raise f : Run PUnit) >>= fun _ => x else x) env machine.poll.2) := by
  split
  · next hp =>
    rw [raise_bind]
    exact .refused hrunning (hrefused hp)
  · next hp => exact h hp

/-- Every call goes so, whatever evaluates the parts of the body. -/
theorem call_goes (k : Evaluator) (env : Environment) (declaring : ClassId) (m : MethodDef)
    (this : Option Value) (args : List Value) (machine : Machine) :
    k.CallGoes env declaring m this args machine (k.call declaring m this args env machine) := by
  unfold call
  cases hcancelled : machine.poll.1 with
  | true =>
    rw [bind_of_error (checkCancelled_of_cancelled hcancelled)]
    exact .cancelled hcancelled
  | false =>
    have hread : (read : Run Environment) env machine.poll.2 = .ok env machine.poll.2 := rfl
    have hget : (get : Run Machine) env machine.poll.2 = .ok machine.poll.2 machine.poll.2 := rfl
    -- The check takes patience and leaves the calls in progress, which are counted below.
    rw [bind_of_ok (checkCancelled_of_running hcancelled)]
    apply goes_raiseIf hcancelled
    · intro hcounted
      exact .argumentCount (by simpa using hcounted)
    intro hcounted
    have haccepts : m.accepts args.length := by simpa using hcounted
    have hlength := length_bindArgs (MethodDef.accepts_iff.1 haccepts).2
    rw [bind_of_ok hread]
    dsimp only
    split
    · next hnative =>
      cases hname : env.natives (env.hierarchy.typeDef declaring).name m.name with
      | some n =>
        exact .native hcancelled haccepts hnative hname hlength fun i hi => bindArgs_getElem? hi
      | none => exact .refused hcancelled (.notBound hnative hname)
    · next hnative =>
      cases hbody : m.body with
      | none => exact .refused hcancelled (.notImplemented hnative hbody)
      | some body =>
        dsimp only
        rw [bind_of_ok hget, machine.poll_frames]
        apply goes_raiseIf hcancelled
        · exact fun hdepth => .stackOverflow hnative (by rw [hbody]; rfl) hdepth
        intro hdepth
        refine .body hcancelled haccepts hnative hbody (Nat.lt_of_not_le hdepth) fun i hi => ?_
        -- The slots behind those of the parameters are of no interest here.
        rw [startLocals_getElem? (by omega), bindArgs_getElem? hi]

/-- In every call, the slot of a parameter holds the argument passed for it or its default value,
and `null` if there is neither. There always is one, for every number of arguments that is accepted,
just where parameters with default values come last. The compiler accepts the same numbers. -/
theorem parameters_bound (m : MethodDef) :
    (m.DefaultsTrail ↔ ∀ args : List Value, m.accepts args.length → ∀ i < m.params.length,
      (m.supplied? args i).isSome) ∧
    (∀ count span c s, (((Lowering.checkArity (.ofDef m) count span).run c).run s).2 = s ↔
      m.accepts count) ∧
    ∀ k env declaring this args machine, CallGoes k env declaring m this args machine
      (k.call declaring m this args env machine) :=
  ⟨MethodDef.supplied_iff, fun _ _ _ _ => Lowering.checkArity_eq_iff, fun k env declaring =>
    k.call_goes env declaring m⟩

/-- A method whose first parameter alone has a default value. -/
def pair : MethodDef :=
  { (default : MethodDef) with
    name := "Pair", isStatic := true, slots := 2
    params := [⟨"a", none, some (.int 1)⟩, ⟨"b", none, none⟩]
    body := some [.ret 1 (some (.slot 1))] }

def pairEnvironment : Environment :=
  { hierarchy := ⟨[], { (default : Image) with
      types := [{ (default : TypeDef) with name := "Program", methods := [pair] }] }⟩
    maxCallDepth := 2 }

/-- One argument is accepted, and is bound to the parameter that would not need it. -/
theorem parameter_not_bound :
    pair.accepts 1 = true ∧ pair.supplied? [.int 5] 1 = none ∧
      (ofFuel 16).callStatic ⟨0, 0⟩ "Pair" [.int 5] pairEnvironment {} = .ok .null {} :=
  ⟨rfl, rfl, rfl⟩

end Evaluator

end GenLang
