import GenLang.Proofs.Running.Binding

/-!
# A loop that counts

Code that only uses the locals of its call changes nothing but them and the line it is on. The loop
of `Text.Repeat` is such code: each round puts the text behind the result once more and counts up,
and since the counter stays below a 64 bit integer until the loop ends it never wraps around.
-/

namespace GenLang

/-- A machine with one more call in progress, on a line and with some locals. -/
def Machine.within (m : Machine) (f : Frame) (line : Nat) (locals : Array Value) : Machine :=
  { m with frames := { f with line, locals } :: m.frames }

namespace Evaluator

variable {env : Environment} {m m' : Machine} {f : Frame} {l line slot k p : Nat}
  {locals : Array Value} {v : Value} {e cond : Image.Expr} {s : Image.Stmt}
  {ss body : List Image.Stmt}

/-! ## Code over locals -/

theorem checkCancelled_of_patient (h : m.patience = none) :
    Run.checkCancelled env m = .ok () m := by
  have hpoll := Machine.poll_never h
  have hcheck : Run.checkCancelled env m = .ok () m.poll.2 :=
    checkCancelled_of_running (by rw [hpoll])
  rwa [hpoll] at hcheck

theorem inFrame_within {α : Type} {x : Run α} {a : α}
    (h : x env (m.within f f.line f.locals) = .ok a (m.within f l locals)) :
    Run.inFrame f x env m = .ok a m := by
  have hx : x env { m with frames := f :: m.frames } = .ok a (m.within f l locals) := h
  rw [Run.inFrame, hx]
  rfl

theorem setLine_within :
    Run.setLine line env (m.within f l locals) = .ok () (m.within f line locals) :=
  rfl

theorem setLocal_within (h : slot < locals.size) :
    Run.setLocal slot v env (m.within f l locals) =
      .ok () (m.within f l (locals.setIfInBounds slot v)) := by
  have hset : Frame.setLocal { f with line := l, locals } slot v =
      { f with line := l, locals := locals.setIfInBounds slot v } := if_pos h
  show EStateM.Result.ok () { m with frames := Frame.setLocal _ slot v :: m.frames } = _
  rw [hset]
  rfl

theorem eval_const (c : Literal) :
    (ofFuel (p + 1)).eval (.const c) env m = .ok (.ofLiteral c) m :=
  rfl

theorem eval_slot : (ofFuel (p + 1)).eval (.slot slot) env (m.within f l locals) =
    .ok (locals[slot]?.getD .null) (m.within f l locals) :=
  rfl

section

variable (he : (ofFuel p).eval e env (m.within f line locals) =
  .ok v (m.within f line locals))

include he

theorem exec_assign (h : slot < locals.size) :
    (ofFuel (p + 1)).exec (.assign line (.slot slot) e) env (m.within f l locals) =
      .ok .next (m.within f line (locals.setIfInBounds slot v)) := by
  have hassign : (ofFuel p).assign (.slot slot) e env (m.within f line locals) =
      .ok () (m.within f line (locals.setIfInBounds slot v)) :=
    (bind_of_ok he).trans (setLocal_within h)
  exact (bind_of_ok setLine_within).trans (bind_of_ok hassign)

theorem exec_declare (h : slot < locals.size) :
    (ofFuel (p + 1)).exec (.declare line slot (some e)) env (m.within f l locals) =
      .ok .next (m.within f line (locals.setIfInBounds slot v)) :=
  (bind_of_ok setLine_within).trans ((bind_of_ok he).trans (bind_of_ok (setLocal_within h)))

theorem exec_ret : (ofFuel (p + 1)).exec (.ret line (some e)) env (m.within f l locals) =
    .ok (.ret v) (m.within f line locals) :=
  (bind_of_ok setLine_within).trans (bind_of_ok he)

end

theorem exec_while : (ofFuel (p + 1)).exec (.whileLoop line cond body) env (m.within f l locals) =
    (ofFuel p).whileRounds line cond body p env (m.within f line locals) :=
  bind_of_ok setLine_within

theorem block_next {k : Evaluator} (h : k.exec s env m = .ok .next m') :
    k.block (s :: ss) env m = k.block ss env m' :=
  bind_of_ok h

theorem block_ret {k : Evaluator} (h : k.exec s env m = .ok (.ret v) m') :
    k.block (s :: ss) env m = .ok (.ret v) m' :=
  bind_of_ok h

section

variable (hm : m.patience = none) (hcond : (ofFuel p).eval cond env (m.within f line locals) =
  .ok v (m.within f line locals))

include hm hcond

theorem whileRounds_next (hv : v.isTruthy = true)
    (hbody : (ofFuel p).block body env (m.within f line locals) = .ok .next m') :
    (ofFuel p).whileRounds line cond body (k + 1) env (m.within f l locals) =
      (ofFuel p).whileRounds line cond body k env m' := by
  have hcheck : Run.checkCancelled env (m.within f l locals) = .ok () (m.within f l locals) :=
    checkCancelled_of_patient hm
  refine (bind_of_ok hcheck).trans ((bind_of_ok setLine_within).trans ?_)
  refine (bind_of_ok hcond).trans ?_
  rw [hv]
  exact bind_of_ok hbody

theorem whileRounds_end (hv : v.isTruthy = false) :
    (ofFuel p).whileRounds line cond body (k + 1) env (m.within f l locals) =
      .ok .next (m.within f line locals) := by
  have hcheck : Run.checkCancelled env (m.within f l locals) = .ok () (m.within f l locals) :=
    checkCancelled_of_patient hm
  refine (bind_of_ok hcheck).trans ((bind_of_ok setLine_within).trans ?_)
  refine (bind_of_ok hcond).trans ?_
  rw [hv]
  rfl

end

end Evaluator

/-! ## The loop -/

/-- Whether another copy of the text is asked for. -/
def moreCopies : Image.Expr :=
  .binary .lt (.slot 3) (.slot 1)

/-- Puts the text in slot 0 behind the one in slot 2 and counts up in slot 3. -/
def copyOnce (line₁ line₂ : Nat) : List Image.Stmt :=
  [.assign line₁ (.slot 2) (.binary .add (.slot 2) (.slot 0)),
   .assign line₂ (.slot 3) (.binary .add (.slot 3) (.const (.int 1)))]

/-- The code of a method that repeats its first argument as often as the second one says, on the
lines it is on. -/
def repetition (line₁ line₂ line₃ line₄ line₅ line₆ : Nat) : List Image.Stmt :=
  [.declare line₁ 2 (some (.const (.str ""))),
   .declare line₂ 3 (some (.const (.int 0))),
   .whileLoop line₃ moreCopies (copyOnce line₄ line₅),
   .ret line₆ (some (.slot 2))]

/-- The locals while the loop runs: the arguments, the result so far and the counter. -/
def repetitionLocals (t : String) (n : Int64) (result : String) (i : Int64) : Array Value :=
  #[.str t, .int n, .str result, .int i]

/-- A method with the code of `Text.Repeat`. -/
structure MethodDef.IsRepetition (d : MethodDef) : Prop where
  isStatic : d.isStatic = true
  isAsync : d.isAsync = false
  isNative : d.isNative = false
  params : d.params.length = 2
  accepts : d.accepts 2 = true
  slots : d.slots = 4
  body : ∃ line₁ line₂ line₃ line₄ line₅ line₆,
    d.body = some (repetition line₁ line₂ line₃ line₄ line₅ line₆)

/-- What is less than a 64 bit integer can be counted up. -/
theorem toInt_succ {i n : Int64} (h : i.toInt < n.toInt) : (i + 1).toInt = i.toInt + 1 := by
  have hmin : Int64.minValue.toInt = -9223372036854775808 := by decide
  have hmax : Int64.maxValue.toInt = 9223372036854775807 := by decide
  have hone : (1 : Int64).toInt = 1 := by decide
  have hi := i.le_toInt
  have hn := n.toInt_le
  rw [Int64.toInt_add, hone]
  exact Int.bmod_eq_of_le (by omega) (by omega)

namespace Evaluator

variable (env : Environment) {m : Machine} (f : Frame) (t r : String) (n i : Int64)
  (l p line₁ line₂ line₃ line₄ line₅ line₆ : Nat)

theorem eval_moreCopies : (ofFuel (p + 2)).eval moreCopies env
    (m.within f l (repetitionLocals t n r i)) =
      .ok (.bool (compare i.toInt n.toInt == .lt)) (m.within f l (repetitionLocals t n r i)) :=
  rfl

theorem block_copyOnce : (ofFuel (p + 3)).block (copyOnce line₁ line₂) env
    (m.within f l (repetitionLocals t n r i)) =
      .ok .next (m.within f line₂ (repetitionLocals t n (r ++ t) (i + 1))) := by
  have hresult : (ofFuel (p + 2)).eval (.binary .add (.slot 2) (.slot 0)) env
      (m.within f line₁ (repetitionLocals t n r i)) =
        .ok (.str (r ++ t)) (m.within f line₁ (repetitionLocals t n r i)) := rfl
  have hcounter : (ofFuel (p + 2)).eval (.binary .add (.slot 3) (.const (.int 1))) env
      (m.within f line₂ (repetitionLocals t n (r ++ t) i)) =
        .ok (.int (i + 1)) (m.within f line₂ (repetitionLocals t n (r ++ t) i)) := rfl
  have happend := exec_assign (l := l) hresult (by decide : 2 < 4)
  have hcount := exec_assign (l := line₁) hcounter (by decide : 3 < 4)
  exact (block_next happend).trans ((block_next hcount).trans rfl)

variable {n i}

/-- By induction on the rounds that are left: as many copies of the text come to the result. -/
theorem whileRounds_copies {k remaining : Nat} (hm : m.patience = none)
    (h : (n.toInt - i.toInt).toNat = remaining) (hk : remaining < k) :
    ∃ i', (ofFuel (p + 3)).whileRounds line₁ moreCopies (copyOnce line₂ line₃) k env
      (m.within f l (repetitionLocals t n r i)) =
        .ok .next (m.within f line₁ (repetitionLocals t n
          (r ++ String.join (List.replicate remaining t)) i')) := by
  obtain ⟨k, rfl⟩ : ∃ k', k = k' + 1 := ⟨k - 1, by omega⟩
  have hcond := eval_moreCopies env f t r n i line₁ (p + 1) (m := m)
  -- The induction is on the copies that remain. What was copied so far stands in the result.
  induction remaining generalizing l r i k with
  | zero =>
    have hend : (Value.bool (compare i.toInt n.toInt == .lt)).isTruthy = false :=
      beq_eq_false_iff_ne.2 fun hlt => by
        rw [Int.compare_eq_lt] at hlt
        omega
    refine ⟨i, ?_⟩
    rw [List.replicate_zero, String.join_nil, String.append_empty]
    exact whileRounds_end hm hcond hend
  | succ remaining ih =>
    obtain ⟨k, rfl⟩ : ∃ k', k = k' + 1 := ⟨k - 1, by omega⟩
    have hlt : i.toInt < n.toInt := by omega
    have hmore : (Value.bool (compare i.toInt n.toInt == .lt)).isTruthy = true :=
      beq_iff_eq.2 (Int.compare_eq_lt.2 hlt)
    have hbody := block_copyOnce env f t r n i line₁ p line₂ line₃ (m := m)
    have hsucc := toInt_succ hlt
    obtain ⟨i', hrest⟩ := ih (r ++ t) line₃ (by omega) k (by omega)
      (eval_moreCopies env f t (r ++ t) n (i + 1) line₁ (p + 1))
    refine ⟨i', ?_⟩
    rw [whileRounds_next hm hcond hmore hbody, hrest, List.replicate_succ, String.join_cons,
      String.append_assoc]

theorem block_repetition (hm : m.patience = none) (hp : n.toInt.toNat < p + 3) :
    ∃ locals, (ofFuel (p + 4)).block (repetition line₁ line₂ line₃ line₄ line₅ line₆) env
      (m.within f l #[.str t, .int n, .null, .null]) =
        .ok (.ret (.str (String.join (List.replicate n.toInt.toNat t))))
          (m.within f line₆ locals) := by
  have hrounds : (n.toInt - (0 : Int64).toInt).toNat = n.toInt.toNat := by
    rw [show (0 : Int64).toInt = 0 by decide, Int.sub_zero]
  obtain ⟨i, hloop⟩ :=
    whileRounds_copies env f t "" line₃ p line₃ line₄ line₅ (m := m) hm hrounds hp
  rw [String.empty_append] at hloop
  refine ⟨repetitionLocals t n (String.join (List.replicate n.toInt.toNat t)) i, ?_⟩
  have hresult : (ofFuel (p + 4)).exec (.declare line₁ 2 (some (.const (.str "")))) env
      (m.within f l #[.str t, .int n, .null, .null]) =
        .ok .next (m.within f line₁ #[.str t, .int n, .str "", .null]) :=
    exec_declare (eval_const _) (by decide : 2 < 4)
  have hcounter : (ofFuel (p + 4)).exec (.declare line₂ 3 (some (.const (.int 0)))) env
      (m.within f line₁ #[.str t, .int n, .str "", .null]) =
        .ok .next (m.within f line₂ (repetitionLocals t n "" 0)) :=
    exec_declare (eval_const _) (by decide : 3 < 4)
  refine (block_next hresult).trans ((block_next hcounter).trans ?_)
  exact (block_next (exec_while.trans hloop)).trans (block_ret (exec_ret eval_slot))

/-- A method with that code gives back the text as often as it is asked for; a count that is not
positive asks for none. -/
theorem call_repetition {d : MethodDef} (hd : d.IsRepetition) (c : ClassId)
    (hm : m.patience = none) (hdepth : m.frames.length < env.maxCallDepth) {fuel : Nat}
    (hfuel : n.toInt.toNat + 4 ≤ fuel) :
    (ofFuel fuel).call c d none [.str t, .int n] env m =
      .ok (.str (String.join (List.replicate n.toInt.toNat t))) m := by
  obtain ⟨p, rfl⟩ : ∃ p, fuel = p + 4 := ⟨fuel - 4, by omega⟩
  obtain ⟨line₁, line₂, line₃, line₄, line₅, line₆, hbody⟩ := hd.body
  -- both arguments are given, so that no default is looked for
  have hargs : bindArgs d [.str t, .int n] = [.str t, .int n] := by
    show [Value.str t, .int n] ++ (d.params.drop 2).map _ = _
    rw [List.drop_eq_nil_of_le (Nat.le_of_eq hd.params)]
    rfl
  have hlocals : startLocals d [.str t, .int n] = #[.str t, .int n, .null, .null] := by
    rw [startLocals, hd.slots]
    rfl
  obtain ⟨locals, hblock⟩ := block_repetition env
    (frameOf env.hierarchy c d.name d.line none #[.str t, .int n, .null, .null]) t d.line p
    line₁ line₂ line₃ line₄ line₅ line₆ hm (by omega : n.toInt.toNat < p + 3)
  have hdepth : ¬ env.maxCallDepth ≤ m.frames.length := Nat.not_le.2 hdepth
  have haccepts : d.accepts [Value.str t, .int n].length = true := hd.accepts
  unfold call
  refine (bind_of_ok (checkCancelled_of_patient hm)).trans ?_
  simp only [haccepts, Bool.not_true, Bool.false_eq_true, if_false, hargs, hlocals, hd.isNative,
    hbody]
  have hread : (read : Run Environment) env m = .ok env m := rfl
  have hget : (get : Run Machine) env m = .ok m m := rfl
  refine (bind_of_ok hread).trans ((bind_of_ok hget).trans ?_)
  rw [if_neg hdepth]
  refine (bind_of_ok (inFrame_within hblock)).trans ?_
  unfold callResult
  rw [hd.isAsync]
  rfl

end Evaluator

end GenLang
