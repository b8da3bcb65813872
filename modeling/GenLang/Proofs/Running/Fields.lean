import GenLang.Proofs.Linking.Layers
import GenLang.Proofs.Running.Watched

/-!
# Objects and their fields

An object keeps the fields of its class, from before the first of them is initialised. The receiver
of a call is of a class above which the class stands whose code runs, so it has the fields that this
code may name, and access to one of them never fails.
-/

namespace GenLang

namespace Hierarchy

variable {h : Hierarchy}

/-! ## Classes above a class -/

/-- The classes of the libraries, and those of the module that is run under the number of some
module. -/
def classesWith (h : Hierarchy) (m : Nat) : List ClassId :=
  ((List.range h.mainIndex).flatMap fun i =>
    (List.range (h.module i).types.length).map (⟨i, ·⟩)) ++
    (List.range h.main.types.length).map (⟨m, ·⟩)

theorem length_classesWith (m : Nat) : (h.classesWith m).length = h.classCount := by
  rw [← length_allClasses, allClasses, classesWith, List.range_succ, List.flatMap_append,
    List.length_append, List.length_append, List.flatMap_singleton, List.length_map,
    List.length_map, module_mainIndex]

theorem module_of_le {m : Nat} (hm : h.mainIndex ≤ m) : h.module m = h.main := by
  rw [module, List.getD_eq_default _ _ hm]

theorem mem_classesWith {m : Nat} (hm : h.mainIndex ≤ m) {x : ClassId}
    (hmodule : x.module < h.mainIndex ∨ x.module = m)
    (hindex : x.index < (h.module x.module).types.length) : x ∈ h.classesWith m := by
  rw [classesWith, List.mem_append]
  rcases hmodule with hlt | rfl
  · refine .inl (List.mem_flatMap.2 ⟨x.module, List.mem_range.2 hlt, ?_⟩)
    exact List.mem_map.2 ⟨x.index, List.mem_range.2 hindex, rfl⟩
  · rw [module_of_le hm] at hindex
    exact .inr (List.mem_map.2 ⟨x.index, List.mem_range.2 hindex, rfl⟩)

theorem of_mem_classesWith {m : Nat} {x : ClassId} (hx : x ∈ h.classesWith m) :
    x.module < h.mainIndex ∨ x.module = m := by
  rcases List.mem_append.1 hx with hx | hx
  · obtain ⟨i, hi, hx⟩ := List.mem_flatMap.1 hx
    obtain ⟨j, -, rfl⟩ := List.mem_map.1 hx
    exact .inl (List.mem_range.1 hi)
  · obtain ⟨j, -, rfl⟩ := List.mem_map.1 hx
    exact .inr rfl

theorem of_findIn? {m : Nat} {name : String} {x : ClassId} (hx : h.findIn? m name = some x) :
    x.module = m ∧ x.index < (h.module m).types.length := by
  obtain ⟨i, hi, rfl⟩ := Option.map_eq_some_iff.1 hx
  obtain ⟨hlt, -⟩ := List.findIdx?_eq_some_iff_getElem.1 hi
  exact ⟨rfl, hlt⟩

/-- A reference leads to a class of a library or of the module that it is read in. -/
theorem of_resolve? {m : Nat} {r : TypeRef} {x : ClassId} (hx : h.resolve? m r = some x) :
    (x.module < h.mainIndex ∨ x.module = m) ∧ x.index < (h.module x.module).types.length := by
  unfold resolve? at hx
  split at hx
  · obtain ⟨i, hi, hfind⟩ := Option.bind_eq_some_iff.1 hx
    obtain ⟨rfl, hindex⟩ := of_findIn? hfind
    exact ⟨.inl (of_libraryIndex? hi).1, hindex⟩
  · obtain ⟨rfl, hindex⟩ := of_findIn? hx
    exact ⟨.inr rfl, hindex⟩

theorem ancestors_of_no_base {c : ClassId} (hbase : h.base? c = none) : h.ancestors c = [c] := by
  rw [ancestors, Graph.chain, if_neg (by simp), hbase]
  cases h.classCount <;> rfl

/-- What is above a class that is above another one is above that one, too. -/
theorem ancestors_subset {d x : ClassId} (hx : x ∈ h.ancestors d) :
    h.ancestors x ⊆ h.ancestors d := by
  cases hbase : h.base? d with
  | none =>
    rw [ancestors_of_no_base hbase, List.mem_singleton] at hx
    rw [hx]
    exact List.Subset.refl _
  | some y =>
    -- The classes that a chain can lead to are no more than there are classes.
    have hlast : h.mainIndex ≤ max d.module h.mainIndex := Nat.le_max_right _ _
    have hclosed : ∀ z ∈ h.classesWith (max d.module h.mainIndex), ∀ w ∈ h.base? z,
        w ∈ h.classesWith (max d.module h.mainIndex) := by
      intro z hz w hw
      obtain ⟨r, -, hresolve⟩ := Option.bind_eq_some_iff.1 hw
      obtain ⟨hmodule, hindex⟩ := of_resolve? hresolve
      refine mem_classesWith hlast (hmodule.elim .inl fun heq => ?_) hindex
      rw [heq]
      exact of_mem_classesWith hz
    have hdeclared : d.index < (h.module d.module).types.length := by
      apply declared_of_types
      intro hdefault
      rw [base?, hdefault] at hbase
      cases hbase
    have hstart : ∀ z ∈ some d, z ∈ h.classesWith (max d.module h.mainIndex) := by
      intro z hz
      obtain rfl := Option.some.inj hz
      exact mem_classesWith hlast (by omega) hdeclared
    have hlength := Graph.length_chain_le hclosed (h.classCount + 1) hstart
    rw [length_classesWith] at hlength
    exact Graph.chain_subset_chain (Nat.lt_succ_of_le hlength) hx

/-! ## Names of fields -/

/-- The fields of an object are declared in its class or above. -/
theorem mem_fieldNames_iff {c : ClassId} {name : String} : name ∈ h.fieldNames c ↔
    ∃ x ∈ h.ancestors c, ∃ f ∈ (h.typeDef x).fields, f.isStatic = false ∧ f.name = name := by
  rw [fieldNames, List.mem_eraseDups, List.mem_map]
  constructor
  · rintro ⟨p, hp, rfl⟩
    obtain ⟨x, hx, hp⟩ := List.mem_flatMap.1 hp
    obtain ⟨f, hf, rfl⟩ := List.mem_map.1 hp
    obtain ⟨hmem, hinstance⟩ := List.mem_filter.1 hf
    exact ⟨x, List.mem_reverse.1 hx, f, hmem, by simpa using hinstance, rfl⟩
  · rintro ⟨x, hx, f, hf, hinstance, rfl⟩
    refine ⟨(x, f), List.mem_flatMap.2 ⟨x, List.mem_reverse.2 hx, ?_⟩, rfl⟩
    exact List.mem_map_of_mem (List.mem_filter.2 ⟨hf, by simp [hinstance]⟩)

theorem fieldNames_subset {d x : ClassId} (hx : x ∈ h.ancestors d) :
    h.fieldNames x ⊆ h.fieldNames d := by
  intro name hname
  obtain ⟨y, hy, hfield⟩ := mem_fieldNames_iff.1 hname
  exact mem_fieldNames_iff.2 ⟨y, ancestors_subset hx hy, hfield⟩

/-- The class whose code runs in a frame. -/
def classOf? (h : Hierarchy) (f : Frame) : Option ClassId :=
  h.findIn? f.module f.typeName

/-- The types of every module have different names. -/
def Distinct (h : Hierarchy) : Prop :=
  ∀ m, ((h.module m).types.map (·.name)).Nodup

theorem Layered.distinct (hlayered : h.Layered) : h.Distinct := by
  intro m
  by_cases hm : m ≤ h.mainIndex
  · exact (hlayered.joins m hm).nodup
  · rw [module_of_le (by omega), ← module_mainIndex]
    exact (hlayered.joins _ (Nat.le_refl _)).nodup

theorem Distinct.classOf? (hdistinct : h.Distinct) {cs : List ClassId} {f : Frame}
    {a : Activation} (hf : f.Serves h cs a) : h.classOf? f = some a.cls := by
  have hlt : a.cls.index < (h.module a.cls.module).types.length := hf.declared
  have hget : (h.module a.cls.module).types[a.cls.index] = h.typeDef a.cls :=
    (typeDef_eq a.cls hlt).symm
  have hidx : (h.module a.cls.module).types.findIdx? (·.name == (h.typeDef a.cls).name) =
      some a.cls.index := by
    rw [List.findIdx?_eq_some_iff_getElem]
    refine ⟨hlt, by rw [hget]; exact beq_self_eq_true _, fun j hj => ?_⟩
    -- A type of the same name before it would be the type itself.
    intro hname
    have hnames : a.cls.index < ((h.module a.cls.module).types.map (·.name)).length := by
      rwa [List.length_map]
    have hbefore : j < ((h.module a.cls.module).types.map (·.name)).length := hj.trans hnames
    have hsame : ((h.module a.cls.module).types.map (·.name))[j] =
        ((h.module a.cls.module).types.map (·.name))[a.cls.index] := by
      rw [List.getElem_map, List.getElem_map, hget]
      exact beq_iff_eq.1 hname
    have hji := (hdistinct a.cls.module).getElem_inj_iff.1 hsame
    omega
  rw [Hierarchy.classOf?, findIn?, hf.module, hf.typeName, hidx]
  rfl

end Hierarchy

/-! ## What is watched for -/

/-- A value is, if it is an object, one of those on the heap, and has exactly the fields that its
class and its base classes declare for objects. -/
def Heap.keeps (h : Hierarchy) (heap : Heap) : Value → Bool
  | .object a => heap.objects[a]?.any fun o => o.fields.map (·.1) == h.fieldNames o.cls
  | _ => true

/-- What is thrown. -/
def Stop.value? : Stop → Option Value
  | .thrown v _ => some v
  | .cancelled | .outOfFuel => none

/-- All objects there are, and all values that a machine holds. -/
def Machine.values (m : Machine) : List Value :=
  (List.range m.heap.objects.size).map .object ++
    m.heap.lists.toList.flatMap (·.toList) ++
    m.heap.objects.toList.flatMap (·.fields.map (·.2)) ++
    m.heap.tasks.toList ++
    m.statics.flatMap (·.2.map (·.2)) ++
    m.frames.flatMap (fun f => f.this.toList ++ f.locals.toList) ++
    m.parked.toList.filterMap (·.value?)

/-- Objects have their fields. -/
def Machine.keepsFields (h : Hierarchy) (m : Machine) : Bool :=
  m.values.all (m.heap.keeps h)

/-- Watches for objects that have not exactly the fields of their classes. -/
def Watch.fields : Watch where
  eval env _ m := m.keepsFields env.hierarchy
  exec env m := m.keepsFields env.hierarchy
  display env m := m.keepsFields env.hierarchy
  value env m v := m.heap.keeps env.hierarchy v
  stop env m e := e.value?.all (m.heap.keeps env.hierarchy)

/-- Whether the running code is that of a class with a field for objects of a name, its own or an
inherited one. -/
def Machine.mayName (h : Hierarchy) (m : Machine) (name : String) : Bool :=
  m.frames.head?.any fun f => (h.classOf? f).any fun c => (h.fieldNames c).contains name

/-- Ends a run where an access fails to a field that the running code may name. -/
def Run.granted {α : Type} (ending : Stop) (name : String) (access : Run α) : Run α := fun env m =>
  match access env m with
  | .ok a m => .ok a m
  | .error e m' => if m.mayName env.hierarchy name then .error ending m' else .error e m'

/-- The rules of the interpreter, but for access to fields of the receiver. -/
def Interpretation.granted (ending : Stop) : Interpretation where
  eval k e :=
    match e with
    | .field .self name => do
      let target ← k.eval .self
      Run.granted ending name (k.getMember target name)
    | e => k.evalExpr e
  exec k s :=
    match s with
    | .assign line (.field .self name) value => do
      Run.setLine line
      let assign : Run Unit := do
        let target ← k.eval .self
        let v ← k.eval value
        Run.granted ending name (k.setMember target name v)
      assign
      return .next
    | s => k.execStmt s
  display k v := k.displayValue v

variable {env : Environment} {as : List Activation} {cs : List ClassId}

/-! ## Machines in good order keep the fields of objects -/

theorem Heap.keeps_of_known {h : Hierarchy} (hfaults : h.FaultsFit) {heap : Heap}
    (hs : heap.Sound h) {v : Value} (hv : v.Known heap.classes) : heap.keeps h v := by
  cases v with
  | object a =>
    have ha : a < heap.objects.size := by
      have hlt : a < heap.classes.length := hv
      rwa [Heap.length_classes] at hlt
    show (heap.objects[a]?.any fun o => o.fields.map (·.1) == h.fieldNames o.cls) = true
    rw [Array.getElem?_eq_getElem ha, Option.any_some, beq_iff_eq]
    exact hs.fits hfaults _ (Array.getElem_mem ha)
  | _ => rfl

theorem Stop.Sound.known {e : Stop} (he : e.Sound env cs) : ∀ v ∈ e.value?, v.Known cs := by
  intro v hv
  cases he with
  | thrown hknown _ => exact Option.some.inj hv ▸ hknown
  | cancelled | outOfFuel => cases hv

theorem Frame.Serves.known {h : Hierarchy} {f : Frame} {a : Activation} (hf : f.Serves h cs a) :
    ∀ v ∈ f.this.toList ++ f.locals.toList, v.Known cs := by
  intro v hv
  rcases List.mem_append.1 hv with hv | hv
  · rw [hf.this] at hv
    exact (hf.receiver v (Option.mem_toList.1 hv)).known
  · exact hf.locals v (Array.mem_toList_iff.1 hv)

/-- All that a machine in good order holds is known. -/
theorem Machine.Sound.known {m : Machine} (hm : m.Sound env as) :
    ∀ v ∈ m.values, v.Known m.heap.classes := by
  unfold Machine.values
  simp only [List.mem_append, List.mem_flatMap, List.mem_map, List.mem_filterMap]
  -- objects, items of lists, fields, results, static fields, frames, and what is parked
  rintro v ((((((hv | hv) | hv) | hv) | hv) | hv) | hv)
  · obtain ⟨a, ha, rfl⟩ := hv
    show a < m.heap.classes.length
    rw [Heap.length_classes]
    exact List.mem_range.1 ha
  · obtain ⟨items, hitems, hv⟩ := hv
    exact hm.heap.items items (Array.mem_toList_iff.1 hitems) v (Array.mem_toList_iff.1 hv)
  · obtain ⟨o, ho, f, hf, rfl⟩ := hv
    exact hm.heap.fields o (Array.mem_toList_iff.1 ho) f hf
  · exact hm.heap.results v (Array.mem_toList_iff.1 hv)
  · obtain ⟨entry, hentry, f, hf, rfl⟩ := hv
    exact hm.statics entry hentry f hf
  · obtain ⟨f, hf, hv⟩ := hv
    obtain ⟨i, hi, rfl⟩ := List.getElem_of_mem hf
    have hserves := hm.frames.get hi (hm.frames.length_eq ▸ hi)
    exact hserves.known v (List.mem_append.2 hv)
  · obtain ⟨stop, hstop, hv⟩ := hv
    exact (hm.parked stop (Option.mem_toList.1 hstop)).known v hv

theorem Machine.Sound.keepsFields {m : Machine} (hm : m.Sound env as)
    (hfaults : env.hierarchy.FaultsFit) : m.keepsFields env.hierarchy :=
  List.all_eq_true.2 fun v hv => Heap.keeps_of_known hfaults hm.heap (hm.known v hv)

theorem Watch.accepts_fields (hfaults : env.hierarchy.FaultsFit) : Watch.fields.Accepts env where
  eval := fun _ hm => hm.keepsFields hfaults
  exec := fun hm _ => hm.keepsFields hfaults
  display := fun hm => hm.keepsFields hfaults
  value := fun hm hv => Heap.keeps_of_known hfaults hm.heap hv
  stop := by
    intro as m e hm he
    have hknown := he.known
    show e.value?.all _ = true
    cases hvalue : e.value? with
    | none => rfl
    | some v => exact Heap.keeps_of_known hfaults hm.heap (hknown v hvalue)

/-! ## Access is granted -/

namespace Evaluator

/-- A field that there is can be read. -/
theorem getMember_of_isSome (k : Evaluator) {a : Nat} {name : String} {m : Machine}
    (h : ((m.heap.instance_ a).get? name).isSome) :
    ∃ v m', k.getMember (.object a) name env m = .ok v m' := by
  obtain ⟨v, hv⟩ := Option.isSome_iff_exists.1 h
  have hheap : Run.heap env m = .ok m.heap m := rfl
  refine ⟨v, m, ?_⟩
  unfold getMember
  dsimp only
  rw [bind_of_ok hheap, hv]
  rfl

/-- A field that there is can be written. -/
theorem setMember_of_isSome (k : Evaluator) {a : Nat} {name : String} (v : Value) {m : Machine}
    (h : ((m.heap.instance_ a).get? name).isSome) :
    ∃ u m', k.setMember (.object a) name v env m = .ok u m' := by
  have hheap : Run.heap env m = .ok m.heap m := rfl
  unfold setMember
  dsimp only
  rw [bind_of_ok hheap, Instance.set?, if_pos h]
  exact ⟨(), _, rfl⟩

end Evaluator

section

variable (hscoped : env.hierarchy.Scoped) (hfaults : env.hierarchy.FaultsFit)
  (hdistinct : env.hierarchy.Distinct)

include hscoped hfaults hdistinct

/-- The receiver is an object with every field that the running code may name. -/
theorem Machine.Sound.receiver {m : Machine} (hm : m.Sound env as)
    (hself : Served env.hierarchy as (Image.Expr.WellScoped · .self)) {name : String}
    (hname : m.mayName env.hierarchy name) :
    ∃ a, Activation.self as = .object a ∧ ((m.heap.instance_ a).get? name).isSome := by
  obtain ⟨r, hsuits, hreceiver⟩ := hself hscoped
  obtain ⟨a, ha, hsome⟩ := hsuits hreceiver
  obtain ⟨v, hv⟩ := Option.isSome_iff_exists.1 hsome
  have hframes := hm.frames
  -- The innermost activation and the innermost frame belong together.
  revert hname hframes
  unfold mayName
  cases as with
  | nil => cases ha
  | cons a' as' =>
    obtain rfl := Option.some.inj ha
    cases m.frames with
    | nil =>
      intro _ hframes
      cases hframes
    | cons f frames =>
      intro hname hframes
      cases hframes with
      | cons hf _ =>
        rw [List.head?_cons, Option.any_some, hdistinct.classOf? hf, Option.any_some,
          List.contains_iff_mem] at hname
        obtain ⟨address, d, rfl, hd, habove⟩ := hf.receiver v hv
        refine ⟨address, ?_, ?_⟩
        · rw [Activation.self, List.head?_cons, Option.bind_some, hv, Option.getD_some]
        · have hsize : address < m.heap.objects.size := by
            rw [← Heap.length_classes]
            exact (List.getElem?_eq_some_iff.1 hd).1
          have hcls : (m.heap.instance_ address).cls = d :=
            Option.some.inj ((Heap.classes_getElem? hsize).symm.trans hd)
          have hfits := hm.heap.fits hfaults _ (Heap.instance_mem hsize)
          rw [Instance.isSome_get?_iff, hfits, hcls]
          exact Hierarchy.fieldNames_subset habove hname

omit hscoped hfaults hdistinct in
/-- Access is as it was where it does not fail. -/
theorem conforms_granted {α : Type} {Q : List ClassId → α → Prop} {ending : Stop} {name : String}
    {x y : Run α} (h : Conforms env as cs x y Q)
    (hok : ∀ m : Machine, m.Sound env as → m.mayName env.hierarchy name →
      ∃ a m', y env m = .ok a m') :
    Conforms env as cs x (Run.granted ending name y) Q := by
  intro m hm hcs
  have hgranted : Run.granted ending name y env m = y env m := by
    unfold Run.granted
    cases hy : y env m with
    | ok a m' => rfl
    | error e m' =>
      refine if_neg fun hname => ?_
      obtain ⟨a, m'', heq⟩ := hok m hm hname
      rw [hy] at heq
      cases heq
  rw [hgranted]
  exact h m hm hcs

theorem Interpretation.conform_granted (ending : Stop) :
    (Interpretation.granted ending).Conform env where
  eval := by
    intro k k' as cs e hk he
    unfold Interpretation.granted
    dsimp only
    split
    · next name =>
      have hself : Served env.hierarchy as (Image.Expr.WellScoped · .self) := he
      apply conforms_bind (hk.self hself)
      intro cs' _ target htarget
      -- Before the access itself, the machine is in good order, and the target is the receiver.
      apply conforms_granted (Evaluator.conforms_getMember hk name)
      intro m hm hname
      obtain ⟨a, ha, hget⟩ := hm.receiver hscoped hfaults hdistinct hself hname
      rw [htarget.eq, ha]
      exact Evaluator.getMember_of_isSome k' hget
    · exact Evaluator.conforms_evalExpr hk he
  self := fun _ _ => conforms_getThis
  exec := by
    intro k k' as cs s hk hs has
    unfold Interpretation.granted
    dsimp only
    split
    · next line name value =>
      have hself : Served env.hierarchy as (Image.Expr.WellScoped · .self) :=
        hs.imp fun _ h => h.1
      have hvalue : Served env.hierarchy as (Image.Expr.WellScoped · value) :=
        hs.imp fun _ h => h.2
      apply conforms_bind (conforms_setLine line)
      intro cs₁ _ _ _
      apply conforms_bind (Q := Anything)
      · apply conforms_bind (hk.self hself)
        intro cs₂ _ target htarget
        apply conforms_bind (hk.eval hvalue)
        intro cs₃ hcs₃ v hv
        -- The right side may have written to the receiver, which has the same fields afterwards.
        apply conforms_granted (Evaluator.conforms_setMember hk (htarget.known.mono hcs₃) name hv)
        intro m hm hname
        obtain ⟨a, ha, hget⟩ := hm.receiver hscoped hfaults hdistinct hself hname
        rw [htarget.eq, ha]
        exact Evaluator.setMember_of_isSome k' v hget
      · exact fun cs₂ _ _ _ => conforms_pure fun _ _ => trivial
    · exact Evaluator.conforms_execStmt hk has hs
  display := fun hk hv => Evaluator.conforms_displayValue hk hv

end

end GenLang
