import Mathlib.Data.List.Basic
import GenLang.Proofs.Running.Natives

/-!
# The rules keep machines in good order

Over evaluators that conform for the parts of what is evaluated, every rule of the interpreter
conforms: a frame that is pushed is that of a member of its class, on a receiver that belongs to the
class, and a method's frame is pushed below the limit of calls only.
-/

namespace GenLang

namespace Hierarchy

variable {h : Hierarchy} {c : ClassId}

/-- A class that declares something is there. -/
theorem declared_of_types (hne : h.typeDef c ≠ default) :
    c.index < (h.module c.module).types.length := by
  by_contra hlt
  apply hne
  rw [typeDef, List.getD_eq_getElem?_getD, List.getElem?_eq_none (by omega), Option.getD_none]

theorem declared_of_method {m : MethodDef} (hm : m ∈ (h.typeDef c).methods) :
    c.index < (h.module c.module).types.length := by
  apply declared_of_types
  intro hc
  rw [hc] at hm
  exact absurd hm List.not_mem_nil

theorem declared_of_field {f : FieldDef} (hf : f ∈ (h.typeDef c).fields) :
    c.index < (h.module c.module).types.length := by
  apply declared_of_types
  intro hc
  rw [hc] at hf
  exact absurd hf List.not_mem_nil

theorem module_mem (h : Hierarchy) (i : Nat) : h.module i ∈ h.libraries ++ [h.main] := by
  rw [module, List.getD_eq_getElem?_getD]
  cases hi : h.libraries[i]? with
  | none => exact List.mem_append_right _ List.mem_cons_self
  | some l => exact List.mem_append_left _ (List.mem_of_getElem? hi)

theorem typeDef_mem_types (hc : c.index < (h.module c.module).types.length) :
    h.typeDef c ∈ h.types := by
  rw [typeDef, List.getD_eq_getElem?_getD, List.getElem?_eq_getElem hc, Option.getD_some]
  exact List.mem_flatMap_of_mem (h.module_mem c.module) (List.getElem_mem hc)

theorem Scoped.method (hscoped : h.Scoped) {m : MethodDef} (hm : m ∈ (h.typeDef c).methods) :
    m.WellScoped :=
  (hscoped _ (typeDef_mem_types (declared_of_method hm))).2 m hm

theorem Scoped.field (hscoped : h.Scoped) {f : FieldDef} (hf : f ∈ (h.typeDef c).fields) :
    f.WellScoped :=
  (hscoped _ (typeDef_mem_types (declared_of_field hf))).1 f hf

/-- A method that is found is one of a class above. -/
theorem mem_of_findMethod? {x y : ClassId} {name : String} {m : MethodDef}
    (h' : h.findMethod? x name = some (y, m)) :
    y ∈ h.ancestors x ∧ m ∈ (h.typeDef y).methods := by
  obtain ⟨z, hz, hm⟩ := List.exists_of_findSome?_eq_some h'
  obtain ⟨m', hm', heq⟩ := Option.map_eq_some_iff.1 hm
  cases heq
  exact ⟨hz, List.mem_of_find?_eq_some hm'⟩

end Hierarchy

/-- A statement does not change whether there is a receiver. -/
theorem Image.Stmt.hasSelf_after (r : Region) (s : Image.Stmt) :
    (s.after r).hasSelf = r.hasSelf := by
  cases s <;> rfl

namespace Evaluator

theorem mem_instanceFields {h : Hierarchy} {c owner : ClassId} {f : FieldDef}
    (hf : (owner, f) ∈ instanceFields h c) :
    owner ∈ h.ancestors c ∧ f ∈ (h.typeDef owner).fields := by
  obtain ⟨x, hx, hmem⟩ := List.mem_flatMap.1 hf
  obtain ⟨g, hg, heq⟩ := List.mem_map.1 hmem
  cases heq
  exact ⟨List.mem_reverse.1 hx, (List.mem_filter.1 hg).1⟩

theorem mem_fieldNames {h : Hierarchy} {c : ClassId} {p : ClassId × FieldDef}
    (hp : p ∈ instanceFields h c) : p.2.name ∈ h.fieldNames c :=
  List.mem_eraseDups.2 (List.mem_map_of_mem hp)

variable {env : Environment} {as : List Activation} {cs : List ClassId}

theorem conforms_hostMember (object : HostObject) (name : String) :
    Conforms env as cs (hostMember object name) (hostMember object name) Value.Known := by
  have hviews (objects : List HostObject) :
      Conforms env as cs (Run.newViews objects) (Run.newViews objects) Value.Known :=
    conforms_places fun _ hs _ => .newViews hs objects
  have htexts (texts : List String) :
      Conforms env as cs (newStrings texts) (newStrings texts) Value.Known := by
    apply conforms_newList
    intro v hv
    obtain ⟨text, -, rfl⟩ := List.mem_map.1 (List.mem_toArray.1 hv)
    trivial
  unfold hostMember
  split
  -- the parameters of the constructor, and the arguments of a call, which literals stand for
  case h_10 =>
    apply conforms_bind_read
    split
    · exact hviews _
    · exact conforms_newList fun v hv => absurd hv (Array.not_mem_empty v)
  case h_21 =>
    apply conforms_newList
    intro v hv
    obtain ⟨argument, -, rfl⟩ := List.mem_map.1 (List.mem_toArray.1 hv)
    exact Value.known_ofLiteral _
  all_goals
    first
    | exact conforms_value trivial
    | exact conforms_value (Value.known_ofOption _)
    | exact htexts _
    | exact hviews _
    | exact conforms_places fun _ hs _ => .newHost hs _
    | exact conforms_raise _

variable {k k' : Evaluator} (hk : Alike env k k')

include hk

/-! ## Calls -/

theorem conforms_block {ss : List Image.Stmt}
    (hss : Served env.hierarchy as (Image.Stmt.WellScopedAll · ss))
    (has : as.length ≤ env.maxCallDepth) :
    Conforms env as cs (k.block ss) (k'.block ss) Flow.Known := by
  induction ss generalizing cs with
  | nil => exact conforms_pure fun _ _ => trivial
  | cons s ss ih =>
    unfold block
    apply conforms_bind (hk.exec (hss.imp fun _ h => h.1) has)
    intro cs' _ flow hflow
    split
    · exact ih (hss.inside fun r h => ⟨s.after r, Image.Stmt.hasSelf_after r s, h.2⟩)
    · exact conforms_pure fun _ hcs => hflow.mono hcs

omit hk in
theorem conforms_callResult (m : MethodDef) {flow : Flow} (hflow : flow.Known cs) :
    Conforms env as cs (callResult m flow) (callResult m flow) Value.Known := by
  unfold callResult
  dsimp only
  cases flow with
  | ret v =>
    split
    · exact conforms_value hflow
    · exact conforms_places fun _ hs hcs => .newTask hs (Value.Known.mono hcs hflow)
    · exact conforms_value hflow
  | _ =>
    split
    · exact conforms_value trivial
    · exact conforms_places fun _ hs _ => .newTask hs trivial
    · exact conforms_value trivial

omit hk in
theorem known_bindArgs {m : MethodDef} {args : List Value} (hargs : Value.AllKnown cs args) :
    Value.AllKnown cs (bindArgs m args) := by
  intro v hv
  rcases List.mem_append.1 hv with hv | hv
  · exact hargs v hv
  · obtain ⟨p, -, rfl⟩ := List.mem_map.1 hv
    exact Value.known_ofLiteral _

omit hk in
theorem known_startLocals {m : MethodDef} {args : List Value} (hargs : Value.AllKnown cs args) :
    ∀ v ∈ startLocals m args, v.Known cs := by
  intro v hv
  rcases List.mem_append.1 (List.mem_toArray.1 hv) with hv | hv
  · exact hargs v hv
  · obtain rfl := List.eq_of_mem_replicate hv
    trivial

omit hk in
/-- The frame of a call. -/
theorem serves_call {declaring : ClassId} {m : MethodDef}
    (hm : m ∈ (env.hierarchy.typeDef declaring).methods) {this : Option Value}
    (hthis : ∀ v ∈ this, v.Derives env.hierarchy cs declaring) {args : List Value}
    (hargs : Value.AllKnown cs args) :
    (frameOf env.hierarchy declaring m.name m.line this (startLocals m args)).Serves
      env.hierarchy cs ⟨declaring, this, none⟩ where
  module := rfl
  typeName := rfl
  declared := Hierarchy.declared_of_method hm
  this := rfl
  receiver := hthis
  initialising := fun field hfield => absurd hfield (Option.not_mem_none field)
  locals := known_startLocals hargs

omit hk in
/-- What runs in the frame of a call. -/
theorem served_call {declaring : ClassId} {m : MethodDef}
    (hm : m ∈ (env.hierarchy.typeDef declaring).methods) {this : Option Value}
    (hself : m.isStatic = false → this.isSome) {body : List Image.Stmt}
    (hbody : m.body = some body) : Served env.hierarchy (⟨declaring, this, none⟩ :: as)
      (Image.Stmt.WellScopedAll · body) := by
  intro hscoped
  refine ⟨_, fun hinstance => ⟨_, rfl, ?_⟩, (hscoped.method hm).body body hbody⟩
  exact hself (by simpa using hinstance)

theorem conforms_call {declaring : ClassId} {m : MethodDef}
    (hm : m ∈ (env.hierarchy.typeDef declaring).methods) {this : Option Value}
    (hthis : ∀ v ∈ this, v.Derives env.hierarchy cs declaring)
    (hself : m.isStatic = false → this.isSome) {args : List Value}
    (hargs : Value.AllKnown cs args) :
    Conforms env as cs (k.call declaring m this args) (k'.call declaring m this args)
      Value.Known := by
  unfold call
  apply conforms_bind conforms_checkCancelled
  intro cs₁ hcs₁ _ _
  apply conforms_raiseIf
  intro _
  apply conforms_bind_read
  dsimp only
  have hbound : Value.AllKnown cs₁ (bindArgs m args) := known_bindArgs (hargs.mono hcs₁)
  split
  · split
    · apply conforms_enter hk
      apply NativeCode.careful_native
      intro v hv
      rcases List.mem_append.1 hv with hv | hv
      · exact ((hthis v (Option.mem_toList.1 hv)).known).mono hcs₁
      · exact hbound v hv
    · exact conforms_raise _
  · split
    · exact conforms_raise _
    · next body hbody =>
      apply conforms_bind_get
      intro machine hmachine hcs₂
      apply conforms_raiseIf
      intro hdepth
      rw [hmachine.frames.length_eq] at hdepth
      have hserves := serves_call hm (fun v hv => (hthis v hv).mono (hcs₁.trans hcs₂))
        (hbound.mono hcs₂)
      -- The frame of the call is below the limit, so statements may run in it.
      apply conforms_bind (conforms_inFrame hserves (.inr (by omega))
        (conforms_block hk (served_call hm hself hbody) _))
      · exact fun cs₃ _ flow hflow => conforms_callResult m hflow
      · rw [List.length_cons]
        omega

/-- A method that is found is called on an object whose class, or one above it, has it. -/
theorem conforms_found {x y : ClassId} {name : String} {m : MethodDef}
    (hfound : env.hierarchy.findMethod? x name = some (y, m)) {this : Option Value}
    (hthis : ∀ v ∈ this, ∃ a, v = .object a ∧ cs[a]? = some x)
    (hself : m.isStatic = false → this.isSome) {args : List Value}
    (hargs : Value.AllKnown cs args) :
    Conforms env as cs (k.call y m this args) (k'.call y m this args) Value.Known := by
  obtain ⟨hy, hm⟩ := Hierarchy.mem_of_findMethod? hfound
  apply conforms_call hk hm _ hself hargs
  intro v hv
  obtain ⟨a, rfl, ha⟩ := hthis v hv
  exact ⟨a, x, rfl, ha, hy⟩

theorem conforms_callStatic (c : ClassId) (name : String) {args : List Value}
    (hargs : Value.AllKnown cs args) :
    Conforms env as cs (k.callStatic c name args) (k'.callStatic c name args) Value.Known := by
  unfold callStatic
  apply conforms_bind_hierarchy
  split
  · next declaring m hfound =>
    split
    · next hstatic =>
      apply conforms_found hk hfound (fun v hv => absurd hv (Option.not_mem_none v)) _ hargs
      exact fun hinstance => absurd (hinstance.symm.trans hstatic) Bool.false_ne_true
    · exact conforms_raise _
  · exact conforms_raise _

omit hk in
/-- The class of an object that is known. -/
theorem class_of_known {heap : Heap} {a : Nat} (ha : (Value.object a).Known heap.classes) :
    heap.classes[a]? = some (heap.instance_ a).cls :=
  Heap.classes_getElem? (Heap.length_classes ▸ ha)

theorem conforms_callValue {target : Value} (htarget : target.Known cs) (name : String)
    {args : List Value} (hargs : Value.AllKnown cs args) :
    Conforms env as cs (k.callValue target name args) (k'.callValue target name args)
      Value.Known := by
  unfold callValue
  split
  · exact conforms_raise _
  · next a =>
    apply conforms_bind_heap
    intro heap hs hcs
    apply conforms_bind_hierarchy
    split
    · next declaring m hfound =>
      split
      · exact conforms_raise _
      · -- The method was found by the class of the receiver, which is hence of a class that has it.
        apply conforms_found hk hfound _ (fun _ => rfl) (hargs.mono hcs)
        intro v hv
        obtain rfl := Option.some.inj hv
        exact ⟨a, rfl, class_of_known (htarget.mono hcs)⟩
    · apply conforms_enter hk
      exact NativeCode.careful_builtinMethod (htarget.mono hcs) _ (hargs.mono hcs)
  · apply conforms_bind conforms_checkCancelled
    intro cs' hcs _ _
    apply conforms_bind_heap
    intro heap _ hcs'
    exact conforms_enter hk (NativeCode.careful_hostMethod _ _ (hargs.mono (hcs.trans hcs')))
  · exact conforms_callStatic hk _ _ hargs
  · exact conforms_enter hk (NativeCode.careful_builtinMethod htarget _ hargs)

/-! ## Objects -/

omit hk in
/-- A field of an object's class is written. -/
theorem conforms_setField {address : Nat} {c : ClassId} (hc : cs[address]? = some c)
    {name : String} (hname : name ∈ env.hierarchy.fieldNames c) {v : Value} (hv : v.Known cs) :
    Conforms env as cs (setField address name v) (setField address name v) Anything := by
  apply conforms_modifyHeap
  intro heap hs hcs
  have hknown : (Value.object address).Known cs := (List.getElem?_eq_some_iff.1 hc).1
  have hcls : (heap.instance_ address).cls = c := by
    have hget := class_of_known (Value.Known.mono hcs hknown)
    rw [getElem?_mono hcs hc] at hget
    exact (Option.some.inj hget).symm
  have hsize : address < heap.objects.size := by
    have hlt : address < heap.classes.length := Value.Known.mono hcs hknown
    rwa [Heap.length_classes] at hlt
  apply Heap.Grows.setObject hs Instance.cls_define
  · apply Instance.known_define _ (hv.mono hcs)
    exact hs.fields _ (Heap.instance_mem hsize)
  · exact fun _ hfits => hfits.define (hcls ▸ hname)

omit hk in
/-- The frame in which a field is initialised. -/
theorem serves_initialiser {c : ClassId} {f : FieldDef}
    (hf : f ∈ (env.hierarchy.typeDef c).fields) (hinit : f.init.isSome) {method : String}
    (hmethod : method = "init" ∨ method = ".cctor") {this : Option Value}
    (hthis : ∀ v ∈ this, v.Derives env.hierarchy cs c) :
    (frameOf env.hierarchy c method f.line this #[]).Serves env.hierarchy cs ⟨c, this, some f⟩ where
  module := rfl
  typeName := rfl
  declared := Hierarchy.declared_of_field hf
  this := rfl
  receiver := hthis
  initialising := by
    intro field hfield
    obtain rfl := Option.some.inj hfield
    exact ⟨hf, hinit, hmethod⟩
  locals := fun v hv => absurd hv (Array.not_mem_empty v)

theorem conforms_initFields {address : Nat} {c : ClassId} (hc : cs[address]? = some c)
    {fields : List (ClassId × FieldDef)}
    (hfields : ∀ p ∈ fields, p ∈ instanceFields env.hierarchy c) :
    Conforms env as cs (k.initFields env.hierarchy address fields)
      (k'.initFields env.hierarchy address fields) Anything := by
  induction fields generalizing cs with
  | nil => exact conforms_return _
  | cons p rest ih =>
    obtain ⟨owner, f⟩ := p
    have hmem := hfields _ List.mem_cons_self
    have hrest := fun q hq => hfields q (List.mem_cons_of_mem _ hq)
    rw [initFields, initFields]
    cases hinit : f.init with
    | none => exact ih hc hrest
    | some init =>
      obtain ⟨howner, hf⟩ := mem_instanceFields hmem
      have hthis : ∀ v ∈ some (Value.object address), v.Derives env.hierarchy cs owner := by
        intro v hv
        obtain rfl := Option.some.inj hv
        exact ⟨address, c, rfl, hc, howner⟩
      have hserves := serves_initialiser hf (hinit ▸ rfl) (.inl rfl) hthis
      -- The receiver is the object: its class is derived from the one that declares the field.
      have hcode : Served env.hierarchy (⟨owner, some (.object address), some f⟩ :: as)
          (Image.Expr.WellScoped · init) :=
        fun hscoped => ⟨_, fun _ => ⟨_, rfl, rfl⟩, hscoped.field hf init hinit⟩
      -- The frame is that of an initialiser, so nothing is known of the limit, nor asked for.
      apply conforms_bind (conforms_inFrame hserves (.inl rfl) (hk.eval hcode))
      intro cs₁ hcs₁ v hv
      have hname := mem_fieldNames hmem
      apply conforms_bind (conforms_setField (getElem?_mono hcs₁ hc) hname hv)
      intro cs₂ hcs₂ _ _
      exact ih (getElem?_mono (hcs₁.trans hcs₂) hc) hrest

theorem conforms_construct (c : ClassId) {args : List Value} (hargs : Value.AllKnown cs args) :
    Conforms env as cs (k.construct c args) (k'.construct c args) Value.Known := by
  unfold construct
  apply conforms_bind conforms_checkCancelled
  intro cs₁ hcs₁ _ _
  apply conforms_bind_hierarchy
  dsimp only
  apply conforms_raiseIf
  intro _
  -- Before the first initialiser runs, the object has all its fields.
  apply conforms_bind (conforms_newObject (known_blankInstance _ c) fun _ => fits_blankInstance _ c)
  rintro cs₂ hcs₂ this ⟨address, rfl, hc⟩
  rw [cls_blankInstance] at hc
  apply conforms_bind (conforms_initFields hk hc fun _ hp => hp)
  intro cs₃ hcs₃ _ _
  have hthis : (Value.object address).Known cs₃ :=
    (List.getElem?_eq_some_iff.1 (getElem?_mono hcs₃ hc)).1
  split
  · next declaring m hfilter =>
    have hfound := (Option.filter_eq_some_iff.1 hfilter).1
    have hobject : ∀ v ∈ some (Value.object address), ∃ a, v = .object a ∧ cs₃[a]? = some c := by
      intro v hv
      obtain rfl := Option.some.inj hv
      exact ⟨address, rfl, getElem?_mono hcs₃ hc⟩
    apply conforms_bind (conforms_found hk hfound hobject (fun _ => rfl)
      (hargs.mono (hcs₁.trans (hcs₂.trans hcs₃))))
    exact fun cs₄ hcs₄ _ _ => conforms_value (hthis.mono hcs₄)
  · apply conforms_raiseIf
    exact fun _ => conforms_value hthis

/-! ## Static fields -/

omit hk in
/-- The static fields change, and hold known values afterwards. -/
theorem conforms_modifyStatics {f : Statics → Statics}
    (hf : ∀ cs' (s : Statics), cs <+: cs' → (∀ entry ∈ s, ∀ f ∈ entry.2, f.2.Known cs') →
      ∀ entry ∈ f s, ∀ f ∈ entry.2, f.2.Known cs') :
    Conforms env as cs (modify fun m => { m with statics := f m.statics } : Run Unit)
      (modify fun m => { m with statics := f m.statics }) Anything := by
  apply conforms_modify
  intro m hm hcs
  exact ⟨⟨hm.heap, hf _ _ hcs hm.statics, hm.frames, hm.bounded, hm.parked⟩, List.prefix_rfl⟩

omit hk in
theorem conforms_enterStatics (c : ClassId) :
    Conforms env as cs (modify fun m => { m with statics := m.statics.enter c } : Run Unit)
      (modify fun m => { m with statics := m.statics.enter c }) Anything := by
  apply conforms_modifyStatics (f := fun s => s.enter c)
  intro cs' s _ hs
  unfold Statics.enter
  split
  · exact hs
  · intro entry hentry
    rcases List.mem_append.1 hentry with hentry | hentry
    · exact hs entry hentry
    · obtain rfl := List.mem_singleton.1 hentry
      exact fun f hf => absurd hf List.not_mem_nil

omit hk in
theorem conforms_setStatic (c : ClassId) (name : String) {v : Value} (hv : v.Known cs) :
    Conforms env as cs (modify fun m => { m with statics := m.statics.set c name v } : Run Unit)
      (modify fun m => { m with statics := m.statics.set c name v }) Anything := by
  apply conforms_modifyStatics (f := fun s => s.set c name v)
  intro cs' s hcs hs entry hentry
  obtain ⟨old, hold, rfl⟩ := List.mem_map.1 hentry
  split
  · intro f hf
    rcases List.mem_append.1 hf with hf | hf
    · exact hs old hold f (List.mem_filter.1 hf).1
    · obtain rfl := List.mem_singleton.1 hf
      exact hv.mono hcs
  · exact hs old hold

theorem conforms_initStatics {c : ClassId} {fields : List FieldDef}
    (hfields : ∀ f ∈ fields, f ∈ (env.hierarchy.typeDef c).fields ∧ f.isStatic) :
    Conforms env as cs (k.initStatics env.hierarchy c fields)
      (k'.initStatics env.hierarchy c fields) Anything := by
  induction fields generalizing cs with
  | nil => exact conforms_return _
  | cons f rest ih =>
    have hrest {cs' : List ClassId} : Conforms env as cs' (k.initStatics env.hierarchy c rest)
        (k'.initStatics env.hierarchy c rest) Anything :=
      ih fun g hg => hfields g (List.mem_cons_of_mem f hg)
    obtain ⟨hf, hstatic⟩ := hfields f List.mem_cons_self
    rw [initStatics, initStatics]
    cases hinit : f.init with
    | none =>
      apply conforms_bind (conforms_value (v := .null) trivial)
      intro cs₁ _ v hv
      exact conforms_bind (conforms_setStatic c f.name hv) fun _ _ _ _ => hrest
    | some init =>
      have hthis : ∀ v ∈ (none : Option Value), v.Derives env.hierarchy cs c :=
        fun v hv => absurd hv (Option.not_mem_none v)
      have hserves := serves_initialiser hf (hinit ▸ rfl) (.inr rfl) hthis
      have hcode : Served env.hierarchy (⟨c, none, some f⟩ :: as)
          (Image.Expr.WellScoped · init) := by
        intro hscoped
        -- The region of a static initialiser has no receiver, and there is none.
        refine ⟨_, fun hinstance => ?_, hscoped.field hf init hinit⟩
        rw [hstatic] at hinstance
        cases hinstance
      apply conforms_bind (conforms_inFrame hserves (.inl rfl) (hk.eval hcode))
      intro cs₁ _ v hv
      exact conforms_bind (conforms_setStatic c f.name hv) fun _ _ _ _ => hrest

theorem conforms_ensureStatics (c : ClassId) :
    Conforms env as cs (k.ensureStatics c) (k'.ensureStatics c) Anything := by
  unfold ensureStatics
  apply conforms_bind_get
  intro m _ _
  split
  · exact conforms_return _
  · apply conforms_bind (conforms_enterStatics c)
    intro cs' _ _ _
    apply conforms_bind_hierarchy
    exact conforms_initStatics hk fun f hf => List.mem_filter.1 hf

theorem conforms_staticOwner (c : ClassId) (name : String) :
    Conforms env as cs (k.staticOwner c name) (k'.staticOwner c name) Anything := by
  unfold staticOwner
  apply conforms_bind_hierarchy
  split
  · apply conforms_bind (conforms_ensureStatics hk _)
    exact fun _ _ _ _ => conforms_return _
  · exact conforms_raise _

theorem conforms_readStatic (c : ClassId) (name : String) :
    Conforms env as cs (k.readStatic c name) (k'.readStatic c name) Value.Known := by
  unfold readStatic
  apply conforms_bind (conforms_staticOwner hk c name)
  intro cs' _ owner _
  apply conforms_bind_get
  intro m hm _
  apply conforms_value
  apply Value.known_getD
  intro v hv
  obtain ⟨fields, hfields, hname⟩ := Option.bind_eq_some_iff.1 hv
  obtain ⟨before, after, heq, -⟩ := List.lookup_eq_some_iff.1 hfields
  obtain ⟨before', after', rfl, -⟩ := List.lookup_eq_some_iff.1 hname
  have hentry : (owner, before' ++ (name, v) :: after') ∈ m.statics := by
    rw [heq]
    exact List.mem_append_right _ List.mem_cons_self
  exact hm.statics _ hentry _ (List.mem_append_right _ List.mem_cons_self)

theorem conforms_writeStatic (c : ClassId) (name : String) {v : Value} (hv : v.Known cs) :
    Conforms env as cs (k.writeStatic c name v) (k'.writeStatic c name v) Anything := by
  unfold writeStatic
  apply conforms_bind (conforms_staticOwner hk c name)
  intro cs' hcs owner _
  exact conforms_setStatic owner name (hv.mono hcs)

/-! ## Members -/

theorem conforms_getMember {target : Value} (name : String) :
    Conforms env as cs (k.getMember target name) (k'.getMember target name) Value.Known := by
  unfold getMember
  split
  · exact conforms_raise _
  · apply conforms_bind_heap
    intro heap hs _
    dsimp only
    split
    · next v hv => exact conforms_value (Heap.known_of_get? hs hv)
    · exact conforms_raise _
  · apply conforms_bind_heap
    exact fun heap _ _ => conforms_hostMember _ _
  · exact conforms_readStatic hk _ _
  · apply conforms_bind_heap
    intro heap hs _
    exact conforms_ofExcept fun v hv cs' hcs => (Heap.known_builtinMember hs hv).mono hcs

theorem conforms_setMember {target : Value} (htarget : target.Known cs) (name : String) {v : Value}
    (hv : v.Known cs) :
    Conforms env as cs (k.setMember target name v) (k'.setMember target name v) Anything := by
  unfold setMember
  split
  · exact conforms_raise _
  · next a =>
    apply conforms_bind_heap_now
    intro m hm hcs
    -- The object is written back to the heap that it was read from.
    cases hset : (m.heap.instance_ a).set? name v with
    | none => exact conforms_raise _ m hm List.prefix_rfl
    | some o =>
      have hsize : a < m.heap.objects.size := by
        have hlt : a < m.heap.classes.length := Value.Known.mono hcs htarget
        rwa [Heap.length_classes] at hlt
      have hfields := hm.heap.fields _ (Heap.instance_mem hsize)
      have hg : m.heap.Grows env.hierarchy (m.heap.setObject a o) :=
        .setObject hm.heap (Instance.cls_of_set? hset)
          (Instance.known_of_set? hset hfields (hv.mono hcs)) fun _ hfits => hfits.set? hset
      exact ⟨rfl, hm.grow hg rfl rfl rfl, hg.classes, trivial⟩
  · exact conforms_writeStatic hk _ _ hv
  · apply conforms_bind_heap
    exact fun heap _ _ => conforms_raise _

/-! ## Texts and exceptions -/

theorem conforms_displayValue {v : Value} (hv : v.Known cs) :
    Conforms env as cs (k.displayValue v) (k'.displayValue v) Anything := by
  unfold displayValue
  split
  · next a =>
    apply conforms_bind_heap
    intro heap _ hcs
    apply conforms_bind_hierarchy
    split
    · next declaring m hfound =>
      split
      · apply conforms_bind (conforms_found hk hfound _ (fun _ => rfl) fun v hv =>
          absurd hv List.not_mem_nil)
        · exact fun cs' _ text _ => conforms_bind_heap fun _ _ _ => conforms_return _
        · intro w hw
          obtain rfl := Option.some.inj hw
          exact ⟨a, rfl, class_of_known (hv.mono hcs)⟩
      · exact conforms_return _
    · exact conforms_return _
  · apply conforms_bind_heap
    intro heap hs _
    -- The texts of a list's items are those that the parts give.
    apply conforms_bind (conforms_mapM_texts _)
    · exact fun cs' _ _ _ => conforms_return _
    · intro item hitem cs' hcs
      have hknown := Heap.known_of_mem_items hs (Array.mem_toList_iff.1 hitem)
      exact hk.display (hknown.mono hcs)
  · apply conforms_bind_heap
    exact fun heap _ _ => conforms_return _

theorem conforms_describe {v : Value} (hv : v.Known cs) :
    Conforms env as cs (k.describe v) (k'.describe v) Anything := by
  have hplain {cs' : List ClassId} {w : Value} (hw : w.Known cs') :
      Conforms env as cs' (do return ("Exception", ← k.display w))
        (do return ("Exception", ← k'.display w)) Anything := by
    apply conforms_bind (hk.display hw)
    exact fun cs'' _ _ _ => conforms_return _
  unfold describe
  apply conforms_bind_hierarchy
  split
  · apply conforms_bind_heap
    intro heap hs hcs
    dsimp only
    split
    · apply conforms_bind (hk.display (Value.known_getD fun w hw => Heap.known_of_get? hs hw))
      exact fun cs' _ _ _ => conforms_return _
    · exact hplain (hv.mono hcs)
  · exact hplain hv

theorem conforms_throwValue {α : Type} {Q : List ClassId → α → Prop} {v : Value}
    (hv : v.Known cs) :
    Conforms env as cs (k.throwValue v : Run α) (k'.throwValue v) Q := by
  unfold throwValue
  split
  · exact conforms_raise _
  · apply conforms_bind (conforms_describe hk hv)
    intro cs' hcs d _
    apply conforms_bind_trace
    exact fun trace htrace => conforms_throw (.thrown (hv.mono hcs) htrace)

/-! ## Expressions -/

theorem conforms_binary (op : BinaryOp) {a b : Image.Expr}
    (ha : Served env.hierarchy as (Image.Expr.WellScoped · a))
    (hb : Served env.hierarchy as (Image.Expr.WellScoped · b)) :
    Conforms env as cs (k.binary op a b) (k'.binary op a b) Value.Known := by
  unfold binary
  apply conforms_bind (hk.eval ha)
  intro cs₁ _ left hleft
  split
  · exact conforms_value trivial
  split
  · exact conforms_value trivial
  -- The value on the left is known before the right operand runs, and stays known behind it.
  apply conforms_bind (hk.eval hb)
  intro cs₂ hcs₂ right hright
  split
  · apply conforms_bind (hk.display (hleft.mono hcs₂))
    intro cs₃ hcs₃ _ _
    apply conforms_bind (hk.display (hright.mono hcs₃))
    exact fun cs₄ _ _ _ => conforms_value trivial
  · apply conforms_bind_update
    intro heap placed hs _ hplaced
    obtain ⟨hg, hv⟩ := Heap.places_binary hs hplaced
    exact ⟨hg, conforms_value hv⟩

omit hk in
theorem Served.mem {h : Hierarchy} {es : List Image.Expr}
    (hes : Served h as (Image.Expr.WellScopedAll · es)) {e : Image.Expr} (he : e ∈ es) :
    Served h as (Image.Expr.WellScoped · e) := by
  induction es with
  | nil => exact absurd he List.not_mem_nil
  | cons e' es ih =>
    rcases List.mem_cons.1 he with rfl | he
    · exact hes.imp fun _ h => h.1
    · exact ih (hes.imp fun _ h => h.2) he

theorem conforms_evalAll {es : List Image.Expr}
    (hes : Served env.hierarchy as (Image.Expr.WellScopedAll · es)) :
    Conforms env as cs (es.mapM k.eval) (es.mapM k'.eval) Value.AllKnown :=
  conforms_mapM fun _ hmem _ _ => hk.eval (Served.mem hes hmem)

theorem conforms_evalExpr {e : Image.Expr}
    (he : Served env.hierarchy as (Image.Expr.WellScoped · e)) :
    Conforms env as cs (k.evalExpr e) (k'.evalExpr e) Value.Known := by
  unfold evalExpr
  cases e with
  | const c => exact conforms_value (Value.known_ofLiteral c)
  | slot slot => exact conforms_getLocal slot
  | self => exact conforms_getThis.weaken fun _ _ h => h.known
  | type t =>
    apply conforms_bind_resolve
    exact fun c => conforms_value trivial
  | list items =>
    have hitems : Served env.hierarchy as (Image.Expr.WellScopedAll · items) := he
    apply conforms_bind (conforms_evalAll hk hitems)
    intro cs' _ vs hvs
    exact conforms_newList fun v hv => hvs v (List.mem_toArray.1 hv)
  | new t args =>
    apply conforms_bind_resolve
    intro c
    have hargs : Served env.hierarchy as (Image.Expr.WellScopedAll · args) := he
    apply conforms_bind (conforms_evalAll hk hargs)
    exact fun cs' _ vs hvs => conforms_construct hk c hvs
  | field target name =>
    have htarget : Served env.hierarchy as (Image.Expr.WellScoped · target) := he
    apply conforms_bind (hk.eval htarget)
    exact fun cs' _ v _ => conforms_getMember hk name
  | staticField owner name =>
    apply conforms_bind_resolve
    exact fun c => conforms_readStatic hk c name
  | call target method args =>
    apply conforms_bind (hk.eval (he.imp fun _ h => h.1))
    intro cs₁ _ v hv
    apply conforms_bind (conforms_evalAll hk (he.imp fun _ h => h.2))
    -- The arguments may add objects, among which the target is still known.
    exact fun cs₂ hcs₂ vs hvs => conforms_callValue hk (hv.mono hcs₂) method hvs
  | staticCall owner method args =>
    apply conforms_bind_resolve
    intro c
    have hargs : Served env.hierarchy as (Image.Expr.WellScopedAll · args) := he
    apply conforms_bind (conforms_evalAll hk hargs)
    exact fun cs' _ vs hvs => conforms_callStatic hk c method hvs
  | index target i =>
    apply conforms_bind (hk.eval (he.imp fun _ h => h.1))
    intro cs₁ _ v _
    apply conforms_bind (hk.eval (he.imp fun _ h => h.2))
    intro cs₂ _ n _
    apply conforms_bind_heap
    intro heap hs _
    exact conforms_ofExcept fun r hr cs' hcs => (Heap.known_index hs hr).mono hcs
  | unary op operand =>
    have hoperand : Served env.hierarchy as (Image.Expr.WellScoped · operand) := he
    apply conforms_bind (hk.eval hoperand)
    intro cs₁ _ v _
    apply conforms_bind_heap
    intro heap _ _
    exact conforms_ofExcept fun r hr cs' hcs => (Heap.known_unary hr).mono hcs
  | binary op a b =>
    exact conforms_binary hk op (he.imp fun _ h => h.1) (he.imp fun _ h => h.2)
  | await operand =>
    have hoperand : Served env.hierarchy as (Image.Expr.WellScoped · operand) := he
    apply conforms_bind (hk.eval hoperand)
    intro cs₁ _ v hv
    split
    · apply conforms_bind_heap
      exact fun heap hs _ => conforms_value (Heap.known_result hs _)
    · exact conforms_value hv

/-! ## Statements -/

theorem conforms_assign {p : Image.Place} {value : Image.Expr}
    (hp : Served env.hierarchy as (Image.Place.WellScoped · p))
    (hvalue : Served env.hierarchy as (Image.Expr.WellScoped · value)) :
    Conforms env as cs (k.assign p value) (k'.assign p value) Anything := by
  unfold assign
  cases p with
  | slot slot =>
    apply conforms_bind (hk.eval hvalue)
    exact fun cs' _ v hv => conforms_setLocal hv slot
  | field target name =>
    have htarget : Served env.hierarchy as (Image.Expr.WellScoped · target) := hp
    apply conforms_bind (hk.eval htarget)
    intro cs₁ _ object hobject
    apply conforms_bind (hk.eval hvalue)
    -- The object is evaluated before the value that is put into its field.
    exact fun cs₂ hcs₂ v hv => conforms_setMember hk (hobject.mono hcs₂) name hv
  | staticField owner name =>
    apply conforms_bind_resolve
    intro c
    apply conforms_bind (hk.eval hvalue)
    exact fun cs' _ v hv => conforms_writeStatic hk c name hv
  | index target i =>
    apply conforms_bind (hk.eval (hp.imp fun _ h => h.1))
    intro cs₁ _ list _
    apply conforms_bind (hk.eval (hp.imp fun _ h => h.2))
    intro cs₂ _ n _
    apply conforms_bind (hk.eval hvalue)
    intro cs₃ _ v hv
    apply conforms_bind_update id (fun _ => pure ()) (fun _ => pure ())
    intro heap heap' hs hcs hset
    exact ⟨Heap.grows_setIndex hs (hv.mono hcs) hset, conforms_return _⟩

variable (has : as.length ≤ env.maxCallDepth)

include has

theorem conforms_whileRounds {cond : Image.Expr} {body : List Image.Stmt}
    (hcond : Served env.hierarchy as (Image.Expr.WellScoped · cond))
    (hbody : Served env.hierarchy as (Image.Stmt.WellScopedAll · body)) (line n : Nat) :
    Conforms env as cs (k.whileRounds line cond body n) (k'.whileRounds line cond body n)
      Flow.Known := by
  -- The classes that are known grow with every round, so they are left open.
  induction n generalizing cs with
  | zero => exact conforms_throw .outOfFuel
  | succ n ih =>
    unfold whileRounds
    apply conforms_bind conforms_checkCancelled
    intro cs₁ _ _ _
    apply conforms_bind (conforms_setLine line)
    intro cs₂ _ _ _
    apply conforms_bind (hk.eval hcond)
    intro cs₃ _ v _
    split
    · exact conforms_pure fun _ _ => trivial
    · apply conforms_bind (conforms_block hk hbody has)
      intro cs₄ _ flow hflow
      split
      · exact conforms_pure fun _ _ => trivial
      · exact conforms_pure fun _ hcs => hflow.mono hcs
      · exact ih
      · exact ih

theorem conforms_forRounds {body : List Image.Stmt}
    (hbody : Served env.hierarchy as (Image.Stmt.WellScopedAll · body)) (slot : Nat)
    {items : List Value} (hitems : Value.AllKnown cs items) :
    Conforms env as cs (k.forRounds slot body items) (k'.forRounds slot body items) Flow.Known := by
  induction items generalizing cs with
  | nil => exact conforms_pure fun _ _ => trivial
  | cons item rest ih =>
    unfold forRounds
    apply conforms_bind conforms_checkCancelled
    intro cs₁ hcs₁ _ _
    have hitem := (hitems item List.mem_cons_self).mono hcs₁
    apply conforms_bind (conforms_setLocal hitem slot)
    intro cs₂ hcs₂ _ _
    apply conforms_bind (conforms_block hk hbody has)
    intro cs₃ hcs₃ flow hflow
    -- what is still to come was known before the body ran, and stays known
    have hrest : Value.AllKnown cs₃ rest := fun v hv =>
      (hitems v (List.mem_cons_of_mem item hv)).mono (hcs₁.trans (hcs₂.trans hcs₃))
    split
    · exact conforms_pure fun _ _ => trivial
    · exact conforms_pure fun _ hcs => hflow.mono hcs
    · exact ih hrest
    · exact ih hrest

omit hk has in
theorem known_itemsOf {heap : Heap} (hs : heap.Sound env.hierarchy) {v : Value}
    {items : List Value} (hitems : itemsOf heap v = .ok items) :
    Value.AllKnown heap.classes items := by
  unfold itemsOf at hitems
  split at hitems
  · cases hitems
    exact fun w hw => Heap.known_of_mem_items hs (Array.mem_toList_iff.1 hw)
  · cases hitems
    intro w hw
    obtain ⟨c, -, rfl⟩ := List.mem_map.1 hw
    trivial
  · cases hitems
  · cases hitems

theorem conforms_execStmt {s : Image.Stmt}
    (hs : Served env.hierarchy as (Image.Stmt.WellScoped · s)) :
    Conforms env as cs (k.execStmt s) (k'.execStmt s) Flow.Known := by
  have hnext {cs' : List ClassId} :
      Conforms env as cs' (pure Flow.next) (pure Flow.next) Flow.Known :=
    conforms_pure fun _ _ => trivial
  unfold execStmt
  apply conforms_bind (conforms_setLine s.line)
  intro cs₁ _ _ _
  cases s with
  | declare line slot init =>
    cases init with
    | none =>
      apply conforms_bind (conforms_setLocal (v := .null) trivial slot)
      exact fun cs₂ _ _ _ => hnext
    | some init =>
      apply conforms_bind (hk.eval (hs.imp fun _ h => h init rfl))
      intro cs₂ _ v hv
      apply conforms_bind (conforms_setLocal hv slot)
      exact fun cs₃ _ _ _ => hnext
  | assign line p e =>
    apply conforms_bind (conforms_assign hk (hs.imp fun _ h => h.1) (hs.imp fun _ h => h.2))
    exact fun cs₂ _ _ _ => hnext
  | expr line e =>
    have he : Served env.hierarchy as (Image.Expr.WellScoped · e) := hs
    apply conforms_bind (hk.eval he)
    exact fun cs₂ _ _ _ => hnext
  | cond line c a b =>
    apply conforms_bind (hk.eval (hs.imp fun _ h => h.1))
    intro cs₂ _ v _
    split
    · exact conforms_block hk (hs.imp fun _ h => h.2.1) has
    · exact conforms_block hk (hs.imp fun _ h => h.2.2) has
  | whileLoop line c b =>
    dsimp only
    -- Both try as many rounds.
    rw [hk.fuel]
    have hbody : Served env.hierarchy as (Image.Stmt.WellScopedAll · b) :=
      hs.inside fun r h => ⟨r.loop, rfl, h.2⟩
    exact conforms_whileRounds hk has (hs.imp fun _ h => h.1) hbody line _
  | forLoop line slot e b =>
    apply conforms_bind (hk.eval (hs.imp fun _ h => h.1))
    intro cs₂ _ v _
    apply conforms_bind_heap
    intro heap hheap _
    have hbody : Served env.hierarchy as (Image.Stmt.WellScopedAll · b) :=
      hs.inside fun r h => ⟨(r.extend slot).loop, rfl, h.2⟩
    apply conforms_bind (conforms_ofExcept (Q := Value.AllKnown) _)
    · exact fun cs₃ _ items hitems => conforms_forRounds hk has hbody slot hitems
    · exact fun items hitems cs₃ hcs₃ => (known_itemsOf hheap hitems).mono hcs₃
  | ret line e =>
    cases e with
    | none => exact conforms_pure fun _ _ => trivial
    | some e =>
      apply conforms_bind (hk.eval (hs.imp fun _ h => h e rfl))
      intro cs₂ _ v hv
      exact conforms_pure fun _ hcs => hv.mono hcs
  | throw line e =>
    have he : Served env.hierarchy as (Image.Expr.WellScoped · e) := hs
    apply conforms_bind (hk.eval he)
    exact fun cs₂ _ v hv => conforms_throwValue hk hv
  | tryCatch line b slot handler =>
    -- The handler runs among the calls that were in progress before, hence within the limit too.
    apply conforms_handle (conforms_block hk (hs.imp fun _ h => h.1) has)
    intro cs₂ _ v hv
    cases slot with
    | none => exact conforms_block hk (hs.imp fun _ h => h.2) has
    | some slot =>
      have hhandler : Served env.hierarchy as (Image.Stmt.WellScopedAll · handler) :=
        hs.inside fun r h => ⟨r.extend slot, rfl, h.2⟩
      apply conforms_bind (conforms_setLocal hv slot)
      exact fun cs₃ _ _ _ => conforms_block hk hhandler has
  | breakLoop line | continueLoop line => exact conforms_pure fun _ _ => trivial
  | block line b => exact conforms_block hk hs has

end Evaluator

end GenLang
