import Mathlib.Data.List.Basic
import GenLang.Proofs.Running.Agreement
import GenLang.Proofs.Linking.Link

/-!
# Rules over evaluators that agree

A rule of the interpreter is written over an evaluator for the parts of what it evaluates. Over two
evaluators that agree on code whose sites are as the code of its module is known to be, it does the
same; where it calls into a class, the code is that of the class, in a frame of the module of the
class.
-/

namespace GenLang

/-- The sites of a piece of code are as all sites are in code of the module that runs. -/
def Granted (P : Nat → Site → Prop) (h : Hierarchy) (ms : List Nat) (sites : List Site) : Prop :=
  ∀ s ∈ sites, P (ms.headD h.mainIndex) s

theorem Granted.mono {P : Nat → Site → Prop} {h : Hierarchy} {ms : List Nat}
    {sites others : List Site} (hs : Granted P h ms sites) (hsub : others ⊆ sites) :
    Granted P h ms others :=
  fun s hmem => hs s (hsub hmem)

/-- Evaluators that agree on code with such sites. -/
structure Evaluator.Same (env : Environment) (S : Statics → Prop) (P : Nat → Site → Prop)
    (k k' : Evaluator) : Prop where
  fuel : k.fuel = k'.fuel
  eval : ∀ {ms e}, Granted P env.hierarchy ms e.sites → Agrees env S ms (k.eval e) (k'.eval e)
  exec : ∀ {ms s}, Granted P env.hierarchy ms s.sites → Agrees env S ms (k.exec s) (k'.exec s)
  display : ∀ {ms} (v : Value), Agrees env S ms (k.display v) (k'.display v)

namespace Evaluator

variable {env : Environment} {S : Statics → Prop} {P : Nat → Site → Prop} {k k' : Evaluator}
  (hk : Same env S P k k') {ms : List Nat}

include hk

/-! ## Native code -/

/-- By induction on what native code asks for: only texts depend on the evaluator. -/
theorem agrees_code {α : Type} (code : NativeCode α) {m : Machine} (hm : m.At S ms) :
    code.run k env m = code.run k' env m ∧
      match code.run k' env m with
      | .ok _ m' | .error _ m' => m'.At S ms := by
  induction code generalizing m with
  | done | fail => exact ⟨rfl, hm⟩
  | ask next ih => exact ih env hm
  | look next ih => exact ih m.outside hm
  | change update next ih => exact ih (hm.of_eq rfl rfl)
  | allocate place next ih => exact ih _ (hm.of_eq rfl rfl)
  | poll next ih => exact ih _ hm.poll
  | display v next ih =>
    obtain ⟨heq, hkeep⟩ := hk.display v m hm
    simp only [NativeCode.run, heq]
    cases hv : k'.display v env m with
    | ok text m' =>
      rw [hv] at hkeep
      exact ih text hkeep
    | error stop m' =>
      rw [hv] at hkeep
      exact ⟨rfl, hkeep.of_eq rfl rfl⟩

theorem agrees_enter (code : NativeCode Value) :
    Agrees env S ms (k.enter code) (k'.enter code) := by
  intro m hm
  obtain ⟨heq, hkeep⟩ := agrees_code hk code (m := m.unpark) (hm.of_eq rfl rfl)
  simp only [enter, heq]
  refine ⟨trivial, ?_⟩
  cases hcode : code.run k' env m.unpark with
  | ok v m' =>
    rw [hcode] at hkeep
    exact hkeep.of_eq rfl rfl
  | error f m' =>
    rw [hcode] at hkeep
    dsimp only
    split
    · exact hkeep.of_eq rfl rfl
    · exact (agrees_raise f m' hkeep).2

omit hk in
theorem agrees_hostMember (object : HostObject) (name : String) :
    Keeps env S ms (hostMember object name) := by
  unfold hostMember
  split
  case h_10 =>
    refine agrees_bind agrees_read fun e => ?_
    split <;> exact agrees_allocate _
  all_goals first | exact agrees_pure _ | exact agrees_allocate _ | exact agrees_raise _

/-! ## Calls -/

theorem agrees_block {ss : List Image.Stmt}
    (hss : Granted P env.hierarchy ms (Image.Stmt.sitesAll ss)) :
    Agrees env S ms (k.block ss) (k'.block ss) := by
  induction ss with
  | nil => exact agrees_pure _
  | cons s ss ih =>
    unfold block
    refine agrees_bind (hk.exec (hss.mono (List.subset_append_left _ _))) fun flow => ?_
    split
    · exact ih (hss.mono (List.subset_append_right _ _))
    · exact agrees_pure _

omit hk in
theorem agrees_callResult (m : MethodDef) (flow : Flow) : Keeps env S ms (callResult m flow) := by
  unfold callResult
  dsimp only
  split
  · exact agrees_pure _
  · exact agrees_allocate _
  · exact agrees_pure _

theorem agrees_call {declaring : ClassId} {m : MethodDef}
    (hm : Granted P env.hierarchy (declaring.module :: ms) m.sites) (this : Option Value)
    (args : List Value) :
    Agrees env S ms (k.call declaring m this args) (k'.call declaring m this args) := by
  unfold call
  refine agrees_bind agrees_checkCancelled fun _ => agrees_raiseIf ?_
  refine agrees_bind_read ?_
  dsimp only
  split
  · split
    · exact agrees_enter hk _
    · exact agrees_raise _
  · cases hbody : m.body with
    | none => exact agrees_raise _
    | some body =>
      have hgranted :
          Granted P env.hierarchy (declaring.module :: ms) (Image.Stmt.sitesAll body) := by
        rw [MethodDef.sites, hbody] at hm
        simpa using hm
      refine agrees_bind agrees_get fun _ => agrees_raiseIf ?_
      refine agrees_bind (agrees_inFrame ?_) fun _ => agrees_callResult _ _
      exact agrees_block hk hgranted

/-! ## Code of classes -/

section

variable (hcode : ∀ x : ClassId, ∀ s ∈ (env.hierarchy.typeDef x).sites, P x.module s)

include hcode

omit hk in
theorem granted_method {x : ClassId} {m : MethodDef} (hm : m ∈ (env.hierarchy.typeDef x).methods) :
    Granted P env.hierarchy (x.module :: ms) m.sites := by
  intro s hs
  refine hcode x s ?_
  rw [TypeDef.sites, List.mem_append]
  exact .inr (List.mem_flatMap_of_mem hm hs)

omit hk in
theorem granted_init {x : ClassId} {f : FieldDef} (hf : f ∈ (env.hierarchy.typeDef x).fields)
    {e : Image.Expr} (he : f.init = some e) :
    Granted P env.hierarchy (x.module :: ms) e.sites := by
  intro s hs
  refine hcode x s ?_
  rw [TypeDef.sites, List.mem_append]
  refine .inl (List.mem_flatMap_of_mem hf ?_)
  rw [FieldDef.sites, he]
  exact List.mem_flatMap_of_mem List.mem_cons_self hs

/-- A method that is found belongs to the class that declares it. -/
theorem agrees_found {x y : ClassId} {name : String} {m : MethodDef}
    (hfound : env.hierarchy.findMethod? x name = some (y, m)) (this : Option Value)
    (args : List Value) : Agrees env S ms (k.call y m this args) (k'.call y m this args) := by
  refine agrees_call hk (granted_method hcode ?_) this args
  obtain ⟨z, -, hz⟩ := List.exists_of_findSome?_eq_some hfound
  rw [Option.map_eq_some_iff] at hz
  obtain ⟨m', hm', heq⟩ := hz
  cases heq
  exact List.mem_of_find?_eq_some hm'

theorem agrees_callStatic (c : ClassId) (name : String) (args : List Value) :
    Agrees env S ms (k.callStatic c name args) (k'.callStatic c name args) := by
  unfold callStatic
  refine agrees_bind_hierarchy ?_
  split
  · rename_i declaring m hfound
    split
    · exact agrees_found hk hcode hfound none args
    · exact agrees_raise _
  · exact agrees_raise _

theorem agrees_callValue (target : Value) (name : String) (args : List Value) :
    Agrees env S ms (k.callValue target name args) (k'.callValue target name args) := by
  unfold callValue
  split
  · exact agrees_raise _
  · refine agrees_bind agrees_heap fun heap => agrees_bind_hierarchy ?_
    split
    · rename_i declaring m hfound
      split
      · exact agrees_raise _
      · exact agrees_found hk hcode hfound (some _) args
    · exact agrees_enter hk _
  · refine agrees_bind agrees_checkCancelled fun _ => agrees_bind agrees_heap fun heap => ?_
    exact agrees_enter hk _
  · exact agrees_callStatic hk hcode _ _ _
  · exact agrees_enter hk _

/-! ## Objects and static fields -/

omit hk hcode in
theorem agrees_setField (address : Nat) (name : String) (v : Value) :
    Keeps env S ms (setField address name v) :=
  agrees_modifyHeap _

omit hk hcode in
theorem mem_fields_of_instanceFields {h : Hierarchy} {c owner : ClassId} {f : FieldDef}
    (hf : (owner, f) ∈ instanceFields h c) : f ∈ (h.typeDef owner).fields := by
  obtain ⟨x, -, hx⟩ := List.mem_flatMap.1 hf
  obtain ⟨g, hg, heq⟩ := List.mem_map.1 hx
  cases heq
  exact (List.mem_filter.1 hg).1

theorem agrees_initFields (address : Nat) {fields : List (ClassId × FieldDef)}
    (hfields : ∀ p ∈ fields, p.2 ∈ (env.hierarchy.typeDef p.1).fields) :
    Agrees env S ms (k.initFields env.hierarchy address fields)
      (k'.initFields env.hierarchy address fields) := by
  induction fields with
  | nil => exact agrees_pure _
  | cons p rest ih =>
    obtain ⟨owner, f⟩ := p
    have hrest := ih fun q hq => hfields q (List.mem_cons_of_mem _ hq)
    rw [initFields, initFields]
    cases hinit : f.init with
    | none => exact hrest
    | some init =>
      have hgranted : Granted P env.hierarchy (owner.module :: ms) init.sites :=
        granted_init hcode (hfields _ List.mem_cons_self) hinit
      refine agrees_bind (agrees_inFrame (hk.eval hgranted)) fun v => ?_
      exact agrees_bind (agrees_setField _ _ _) fun _ => hrest

theorem agrees_construct (c : ClassId) (args : List Value) :
    Agrees env S ms (k.construct c args) (k'.construct c args) := by
  unfold construct
  refine agrees_bind agrees_checkCancelled fun _ => agrees_bind_hierarchy ?_
  dsimp only
  refine agrees_raiseIf (agrees_bind (agrees_allocate _) fun this => ?_)
  have hfields (address : Nat) :
      Agrees env S ms (k.initFields env.hierarchy address (instanceFields env.hierarchy c))
        (k'.initFields env.hierarchy address (instanceFields env.hierarchy c)) :=
    agrees_initFields hk hcode address fun _ hp => mem_fields_of_instanceFields hp
  -- Without a constructor nothing may be given. A constructor runs behind the fields.
  cases hfilter : (env.hierarchy.findMethod? c "init").filter (!·.2.isStatic) with
  | none =>
    split
    · exact agrees_bind (hfields _) fun _ => agrees_raiseIf (agrees_pure _)
    · exact agrees_raiseIf (agrees_pure _)
  | some p =>
    obtain ⟨declaring, m⟩ := p
    have hfound := (Option.filter_eq_some_iff.1 hfilter).1
    have hcall : Agrees env S ms (k.call declaring m (some this) args)
        (k'.call declaring m (some this) args) := agrees_found hk hcode hfound _ _
    split
    · refine agrees_bind (hfields _) fun _ => ?_
      exact agrees_bind hcall fun _ => agrees_pure _
    · exact agrees_bind hcall fun _ => agrees_pure _

variable [Statics.Lasting S]

omit hk hcode in
theorem agrees_enterStatics (c : ClassId) :
    Keeps env S ms (modify fun m => { m with statics := m.statics.enter c } : Run Unit) :=
  agrees_modify fun _ hm => ⟨hm.modules, Statics.Lasting.enter c hm.statics⟩

omit hk hcode in
theorem agrees_setStatic (c : ClassId) (name : String) (v : Value) :
    Keeps env S ms (modify fun m => { m with statics := m.statics.set c name v } : Run Unit) :=
  agrees_modify fun _ hm => ⟨hm.modules, Statics.Lasting.set c name v hm.statics⟩

theorem agrees_initStatics {c : ClassId} {fields : List FieldDef}
    (hfields : fields ⊆ (env.hierarchy.typeDef c).fields) :
    Agrees env S ms (k.initStatics env.hierarchy c fields)
      (k'.initStatics env.hierarchy c fields) := by
  induction fields with
  | nil => exact agrees_pure _
  | cons f rest ih =>
    have hrest := ih (List.subset_of_cons_subset hfields)
    rw [initStatics, initStatics]
    cases hinit : f.init with
    | none =>
      refine agrees_bind (agrees_pure _) fun v => ?_
      exact agrees_bind (agrees_setStatic _ _ _) fun _ => hrest
    | some init =>
      have hgranted : Granted P env.hierarchy (c.module :: ms) init.sites :=
        granted_init hcode (hfields List.mem_cons_self) hinit
      refine agrees_bind (agrees_inFrame (hk.eval hgranted)) fun v => ?_
      exact agrees_bind (agrees_setStatic _ _ _) fun _ => hrest

theorem agrees_ensureStatics (c : ClassId) :
    Agrees env S ms (k.ensureStatics c) (k'.ensureStatics c) := by
  unfold ensureStatics
  refine agrees_bind agrees_get fun m => ?_
  split
  · exact agrees_pure _
  · refine agrees_bind (agrees_enterStatics _) fun _ => agrees_bind_hierarchy ?_
    exact agrees_initStatics hk hcode (List.filter_subset_self _)

theorem agrees_staticOwner (c : ClassId) (name : String) :
    Agrees env S ms (k.staticOwner c name) (k'.staticOwner c name) := by
  unfold staticOwner
  refine agrees_bind_hierarchy ?_
  split
  · exact agrees_bind (agrees_ensureStatics hk hcode _) fun _ => agrees_pure _
  · exact agrees_raise _

theorem agrees_readStatic (c : ClassId) (name : String) :
    Agrees env S ms (k.readStatic c name) (k'.readStatic c name) := by
  unfold readStatic
  refine agrees_bind (agrees_staticOwner hk hcode _ _) fun owner => ?_
  exact agrees_bind agrees_get fun _ => agrees_pure _

theorem agrees_writeStatic (c : ClassId) (name : String) (v : Value) :
    Agrees env S ms (k.writeStatic c name v) (k'.writeStatic c name v) := by
  unfold writeStatic
  refine agrees_bind (agrees_staticOwner hk hcode _ _) fun owner => ?_
  exact agrees_setStatic _ _ _

theorem agrees_getMember (target : Value) (name : String) :
    Agrees env S ms (k.getMember target name) (k'.getMember target name) := by
  unfold getMember
  split
  · exact agrees_raise _
  · refine agrees_bind agrees_heap fun heap => ?_
    dsimp only
    split
    · exact agrees_pure _
    · exact agrees_raise _
  · exact agrees_bind agrees_heap fun _ => agrees_hostMember _ _
  · exact agrees_readStatic hk hcode _ _
  · exact agrees_bind agrees_heap fun _ => agrees_ofExcept _

theorem agrees_setMember (target : Value) (name : String) (v : Value) :
    Agrees env S ms (k.setMember target name v) (k'.setMember target name v) := by
  unfold setMember
  split
  · exact agrees_raise _
  · refine agrees_bind agrees_heap fun heap => ?_
    dsimp only
    split
    · exact agrees_modifyHeap _
    · exact agrees_raise _
  · exact agrees_writeStatic hk hcode _ _ _
  · exact agrees_bind agrees_heap fun _ => agrees_raise _

/-! ## Texts and exceptions -/

omit [Statics.Lasting S] in
theorem agrees_displayValue (v : Value) :
    Agrees env S ms (k.displayValue v) (k'.displayValue v) := by
  unfold displayValue
  split
  · refine agrees_bind agrees_heap fun heap => agrees_bind_hierarchy ?_
    split
    · rename_i declaring m hfound
      split
      · refine agrees_bind (agrees_found hk hcode hfound _ _) fun text => ?_
        exact agrees_bind agrees_heap fun _ => agrees_pure _
      · exact agrees_pure _
    · exact agrees_pure _
  · refine agrees_bind agrees_heap fun heap => ?_
    exact agrees_bind (agrees_mapM fun v _ => hk.display v) fun _ => agrees_pure _
  · exact agrees_bind agrees_heap fun _ => agrees_pure _

omit hcode [Statics.Lasting S] in
theorem agrees_describe (v : Value) : Agrees env S ms (k.describe v) (k'.describe v) := by
  unfold describe
  refine agrees_bind_hierarchy ?_
  split
  · refine agrees_bind agrees_heap fun heap => ?_
    dsimp only
    split
    · exact agrees_bind (hk.display _) fun _ => agrees_pure _
    · exact agrees_bind (hk.display _) fun _ => agrees_pure _
  · exact agrees_bind (hk.display _) fun _ => agrees_pure _

omit hcode [Statics.Lasting S] in
theorem agrees_throwValue {α : Type} (v : Value) :
    Agrees env S ms (k.throwValue v : Run α) (k'.throwValue v) := by
  unfold throwValue
  split
  · exact agrees_raise _
  · refine agrees_bind (agrees_describe hk v) fun d => ?_
    exact agrees_bind agrees_trace fun _ => agrees_throw _

/-! ## Expressions -/

omit hcode [Statics.Lasting S] in
theorem agrees_binary {a b : Image.Expr} (ha : Granted P env.hierarchy ms a.sites)
    (hb : Granted P env.hierarchy ms b.sites) (op : BinaryOp) :
    Agrees env S ms (k.binary op a b) (k'.binary op a b) := by
  unfold binary
  refine agrees_bind (hk.eval ha) fun left => ?_
  split
  · exact agrees_pure _
  split
  · exact agrees_pure _
  refine agrees_bind (hk.eval hb) fun right => ?_
  split
  · refine agrees_bind (hk.display _) fun _ => agrees_bind (hk.display _) fun _ => ?_
    exact agrees_pure _
  · refine agrees_bind agrees_heap fun heap => agrees_bind (agrees_ofExcept _) fun result => ?_
    exact agrees_bind (agrees_modifyHeap _) fun _ => agrees_pure _

omit hcode [Statics.Lasting S] in
theorem agrees_evalAll {es : List Image.Expr}
    (hes : Granted P env.hierarchy ms (Image.Expr.sitesAll es)) :
    ∀ e ∈ es, Agrees env S ms (k.eval e) (k'.eval e) := by
  intro e he
  refine hk.eval (hes.mono ?_)
  rw [Image.Expr.sitesAll_eq_flatMap]
  exact fun l hl => List.mem_flatMap_of_mem he hl

theorem agrees_evalExpr {e : Image.Expr} (he : Granted P env.hierarchy ms e.sites) :
    Agrees env S ms (k.evalExpr e) (k'.evalExpr e) := by
  unfold evalExpr
  -- What an expression is granted covers the sites of its parts.
  cases e with
  | const c => exact agrees_pure _
  | slot slot => exact agrees_getLocal _
  | self => exact agrees_getThis
  | type t => exact agrees_bind (agrees_resolve _) fun _ => agrees_pure _
  | list items => exact agrees_bind (agrees_mapM (agrees_evalAll hk he)) fun _ => agrees_allocate _
  | new t args =>
    refine agrees_bind (agrees_resolve _) fun c => ?_
    have hargs := he.mono (List.subset_cons_self _ _)
    exact agrees_bind (agrees_mapM (agrees_evalAll hk hargs)) fun _ => agrees_construct hk hcode _ _
  | field target name => exact agrees_bind (hk.eval he) fun _ => agrees_getMember hk hcode _ _
  | staticField owner name =>
    exact agrees_bind (agrees_resolve _) fun _ => agrees_readStatic hk hcode _ _
  | call target method args =>
    refine agrees_bind (hk.eval (he.mono (List.subset_append_left _ _))) fun v => ?_
    have hargs := he.mono (List.subset_append_right _ _)
    refine agrees_bind (agrees_mapM (agrees_evalAll hk hargs)) fun _ => ?_
    exact agrees_callValue hk hcode _ _ _
  | staticCall owner method args =>
    refine agrees_bind (agrees_resolve _) fun c => ?_
    have hargs := he.mono (List.subset_cons_self _ _)
    refine agrees_bind (agrees_mapM (agrees_evalAll hk hargs)) fun _ => ?_
    exact agrees_callStatic hk hcode _ _ _
  | index target i =>
    refine agrees_bind (hk.eval (he.mono (List.subset_append_left _ _))) fun v => ?_
    refine agrees_bind (hk.eval (he.mono (List.subset_append_right _ _))) fun i => ?_
    exact agrees_bind agrees_heap fun _ => agrees_ofExcept _
  | unary op e =>
    refine agrees_bind (hk.eval he) fun v => ?_
    exact agrees_bind agrees_heap fun _ => agrees_ofExcept _
  | binary op a b =>
    exact agrees_binary hk (he.mono (List.subset_append_left _ _))
      (he.mono (List.subset_append_right _ _)) op
  | await e =>
    refine agrees_bind (hk.eval he) fun v => ?_
    split
    · exact agrees_bind agrees_heap fun _ => agrees_pure _
    · exact agrees_pure _

/-! ## Statements -/

theorem agrees_assign {p : Image.Place} {e : Image.Expr} (hp : Granted P env.hierarchy ms p.sites)
    (he : Granted P env.hierarchy ms e.sites) : Agrees env S ms (k.assign p e) (k'.assign p e) := by
  unfold assign
  cases p with
  | slot slot => exact agrees_bind (hk.eval he) fun _ => agrees_setLocal _ _
  | field target name =>
    refine agrees_bind (hk.eval hp) fun target => agrees_bind (hk.eval he) fun v => ?_
    exact agrees_setMember hk hcode _ _ _
  | staticField owner name =>
    refine agrees_bind (agrees_resolve _) fun c => agrees_bind (hk.eval he) fun v => ?_
    exact agrees_writeStatic hk hcode _ _ _
  | index target i =>
    refine agrees_bind (hk.eval (hp.mono (List.subset_append_left _ _))) fun target => ?_
    refine agrees_bind (hk.eval (hp.mono (List.subset_append_right _ _))) fun i => ?_
    refine agrees_bind (hk.eval he) fun v => agrees_bind agrees_heap fun heap => ?_
    exact agrees_bind (agrees_ofExcept _) fun _ => agrees_modifyHeap _

omit hcode [Statics.Lasting S] in
theorem agrees_whileRounds {cond : Image.Expr} {body : List Image.Stmt}
    (hcond : Granted P env.hierarchy ms cond.sites)
    (hbody : Granted P env.hierarchy ms (Image.Stmt.sitesAll body)) (line n : Nat) :
    Agrees env S ms (k.whileRounds line cond body n) (k'.whileRounds line cond body n) := by
  induction n with
  | zero => exact agrees_throw _
  | succ n ih =>
    unfold whileRounds
    refine agrees_bind agrees_checkCancelled fun _ => agrees_bind (agrees_setLine _) fun _ => ?_
    refine agrees_bind (hk.eval hcond) fun v => ?_
    split
    · exact agrees_pure _
    · refine agrees_bind (agrees_block hk hbody) fun flow => ?_
      split
      · exact agrees_pure _
      · exact agrees_pure _
      · exact ih
      · exact ih

omit hcode [Statics.Lasting S] in
theorem agrees_forRounds {body : List Image.Stmt}
    (hbody : Granted P env.hierarchy ms (Image.Stmt.sitesAll body)) (slot : Nat)
    (items : List Value) :
    Agrees env S ms (k.forRounds slot body items) (k'.forRounds slot body items) := by
  induction items with
  | nil => exact agrees_pure _
  | cons item rest ih =>
    unfold forRounds
    refine agrees_bind agrees_checkCancelled fun _ => agrees_bind (agrees_setLocal _ _) fun _ => ?_
    refine agrees_bind (agrees_block hk hbody) fun flow => ?_
    split
    · exact agrees_pure _
    · exact agrees_pure _
    · exact ih
    · exact ih

omit hcode [Statics.Lasting S] in
theorem agrees_evalOption {e : Option Image.Expr}
    (he : Granted P env.hierarchy ms (e.toList.flatMap Image.Expr.sites)) {v : Image.Expr}
    (hv : e = some v) : Agrees env S ms (k.eval v) (k'.eval v) := by
  refine hk.eval (he.mono fun l hl => ?_)
  rw [hv]
  exact List.mem_flatMap_of_mem List.mem_cons_self hl

theorem agrees_execStmt {s : Image.Stmt} (hs : Granted P env.hierarchy ms s.sites) :
    Agrees env S ms (k.execStmt s) (k'.execStmt s) := by
  unfold execStmt
  refine agrees_bind (agrees_setLine _) fun _ => ?_
  cases s with
  | declare line slot init =>
    cases init with
    | none => exact agrees_bind (agrees_setLocal _ _) fun _ => agrees_pure _
    | some init =>
      refine agrees_bind (agrees_evalOption hk hs rfl) fun v => ?_
      exact agrees_bind (agrees_setLocal _ _) fun _ => agrees_pure _
  | assign line p e =>
    refine agrees_bind (agrees_assign hk hcode (hs.mono (List.subset_append_left _ _))
      (hs.mono (List.subset_append_right _ _))) fun _ => ?_
    exact agrees_pure _
  | expr line e => exact agrees_bind (hk.eval hs) fun _ => agrees_pure _
  | cond line c a b =>
    have hca := hs.mono (List.subset_append_left _ _)
    refine agrees_bind (hk.eval (hca.mono (List.subset_append_left _ _))) fun v => ?_
    split
    · exact agrees_block hk (hca.mono (List.subset_append_right _ _))
    · exact agrees_block hk (hs.mono (List.subset_append_right _ _))
  -- both evaluators go round as often, as they have the same fuel
  | whileLoop line c b =>
    dsimp only
    rw [hk.fuel]
    exact agrees_whileRounds hk (hs.mono (List.subset_append_left _ _))
      (hs.mono (List.subset_append_right _ _)) _ _
  | forLoop line slot e b =>
    refine agrees_bind (hk.eval (hs.mono (List.subset_append_left _ _))) fun v => ?_
    refine agrees_bind agrees_heap fun heap => agrees_bind (agrees_ofExcept _) fun items => ?_
    exact agrees_forRounds hk (hs.mono (List.subset_append_right _ _)) _ _
  | ret line e =>
    cases e with
    | none => exact agrees_pure _
    | some e => exact agrees_bind (agrees_evalOption hk hs rfl) fun _ => agrees_pure _
  | throw line e =>
    exact agrees_bind (hk.eval hs) fun _ => agrees_throwValue hk _
  | tryCatch line b slot handler =>
    refine agrees_handle (agrees_block hk (hs.mono (List.subset_append_left _ _))) fun v => ?_
    have hhandler := agrees_block hk (hs.mono (List.subset_append_right _ _))
    cases slot with
    | none => exact hhandler
    | some slot => exact agrees_bind (agrees_setLocal _ _) fun _ => hhandler
  | breakLoop line => exact agrees_pure _
  | continueLoop line => exact agrees_pure _
  | block line b => exact agrees_block hk hs

/-! ## Runs -/

omit hk hcode [Statics.Lasting S] in
/-- Evaluators that agree come to the same, whoever asks for it in whatever state. -/
theorem runs_eq (hk : Same env (fun _ => True) P k k')
    (hcode : ∀ x : ClassId, ∀ s ∈ (env.hierarchy.typeDef x).sites, P x.module s) (m : Machine) :
    (∀ c method args, k.callStatic c method args env m = k'.callStatic c method args env m) ∧
    (∀ v method args, k.callValue v method args env m = k'.callValue v method args env m) ∧
    (∀ c args, k.construct c args env m = k'.construct c args env m) ∧
    ∀ v, k.display v env m = k'.display v env m := by
  refine ⟨fun c method args => ?_, fun v method args => ?_, fun c args => ?_, fun v => ?_⟩
  · exact (agrees_callStatic hk hcode c method args m ⟨rfl, trivial⟩).1
  · exact (agrees_callValue hk hcode v method args m ⟨rfl, trivial⟩).1
  · exact (agrees_construct hk hcode c args m ⟨rfl, trivial⟩).1
  · exact (hk.display v m ⟨rfl, trivial⟩).1

end

end Evaluator

end GenLang
