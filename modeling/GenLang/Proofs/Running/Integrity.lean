import Mathlib.Data.List.Forall2
import GenLang.Proofs.Running.Agreement
import GenLang.Proofs.Scoping.Region

/-!
# Machines in good order

What holds of a machine whenever code runs on it. Values lead to objects that there are, and every
object has the fields of its class, no more and no less. A frame belongs to a class that is
declared, its receiver is an object of that class or of one derived from it, and frames above the
limit of calls are those of initialisers. The classes of objects are listed by address: the list
grows, and nothing in it ever changes.
-/

namespace GenLang

/-- The names of an object's fields: those that its class and its base classes declare for
objects, the base classes first. -/
def Hierarchy.fieldNames (h : Hierarchy) (c : ClassId) : List String :=
  ((Evaluator.instanceFields h c).map (·.2.name)).eraseDups

/-- The exceptions that are made of faults have the fields of exceptions. -/
def Hierarchy.FaultsFit (h : Hierarchy) : Prop :=
  ∀ c ∈ h.exceptionClass?, h.fieldNames c = ["Message"]

/-- An object has exactly the fields of its class. -/
def Instance.Fits (h : Hierarchy) (o : Instance) : Prop :=
  o.fields.map (·.1) = h.fieldNames o.cls

/-- The classes of objects, by address. -/
def Heap.classes (heap : Heap) : List ClassId :=
  heap.objects.toList.map (·.cls)

/-- If a value is an object, then one of those whose classes are listed. -/
def Value.Known (cs : List ClassId) : Value → Prop
  | .object a => a < cs.length
  | _ => True

/-- A value is an object whose class is, or is derived from, some class. -/
def Value.Derives (h : Hierarchy) (cs : List ClassId) (c : ClassId) (v : Value) : Prop :=
  ∃ a d, v = .object a ∧ cs[a]? = some d ∧ c ∈ h.ancestors d

/-- No value on a heap leads nowhere, and its objects have the fields of their classes. -/
structure Heap.Sound (h : Hierarchy) (heap : Heap) : Prop where
  items : ∀ items ∈ heap.lists, ∀ v ∈ items, v.Known heap.classes
  fields : ∀ o ∈ heap.objects, ∀ f ∈ o.fields, f.2.Known heap.classes
  results : ∀ v ∈ heap.tasks, v.Known heap.classes
  fits : h.FaultsFit → ∀ o ∈ heap.objects, o.Fits h

/-- A heap becomes another one, with the same objects and perhaps more of them. -/
structure Heap.Grows (h : Hierarchy) (heap heap' : Heap) : Prop where
  sound : heap'.Sound h
  classes : heap.classes <+: heap'.classes

/-- What a frame is there for: the class whose code runs in it, the receiver, and the field that is
initialised, unless a method is called. -/
structure Activation where
  cls : ClassId
  receiver : Option Value
  initialising : Option FieldDef

/-- The receiver of the innermost call. -/
def Activation.self (as : List Activation) : Value :=
  (as.head?.bind (·.receiver)).getD .null

/-- Activations above a limit initialise fields, the innermost first. -/
def Activation.Bounded (limit : Nat) (as : List Activation) : Prop :=
  ∀ a ∈ as.take (as.length - limit), a.initialising.isSome

/-- The types of all modules. -/
def Hierarchy.types (h : Hierarchy) : List TypeDef :=
  (h.libraries ++ [h.main]).flatMap (·.types)

/-- All code of a hierarchy is well scoped. -/
def Hierarchy.Scoped (h : Hierarchy) : Prop :=
  ∀ t ∈ h.types, (∀ f ∈ t.fields, f.WellScoped) ∧ ∀ m ∈ t.methods, m.WellScoped

/-- The innermost call has a receiver if code in the region may use one. -/
def Region.Suits (r : Region) (as : List Activation) : Prop :=
  r.hasSelf → ∃ a ∈ as.head?, a.receiver.isSome

/-- Among some calls, code may run that fits a region which suits them. Nothing is asked where not
all code is well scoped. -/
def Served (h : Hierarchy) (as : List Activation) (fits : Region → Prop) : Prop :=
  h.Scoped → ∃ r : Region, r.Suits as ∧ fits r

/-- A field with an initialiser, and a frame in which it is evaluated. -/
structure FieldDef.InitialisedIn (h : Hierarchy) (c : ClassId) (f : FieldDef) (method : String) :
    Prop where
  mem : f ∈ (h.typeDef c).fields
  init : f.init.isSome
  method : method = "init" ∨ method = ".cctor"

/-- A frame as it is when there is something to be done in it. -/
structure Frame.Serves (h : Hierarchy) (cs : List ClassId) (f : Frame) (a : Activation) : Prop where
  module : f.module = a.cls.module
  typeName : f.typeName = (h.typeDef a.cls).name
  declared : a.cls.index < (h.module a.cls.module).types.length
  this : f.this = a.receiver
  receiver : ∀ v ∈ a.receiver, v.Derives h cs a.cls
  initialising : ∀ field ∈ a.initialising, field.InitialisedIn h a.cls f.method
  locals : ∀ v ∈ f.locals, v.Known cs

/-- The calls that a trace names may have been in progress. -/
def Environment.Traces (env : Environment) (trace : List StackFrame) : Prop :=
  ∃ cs frames as, List.Forall₂ (Frame.Serves env.hierarchy cs) frames as ∧
    Activation.Bounded env.maxCallDepth as ∧ trace = frames.map (·.toStackFrame)

/-- The value that is thrown is known, and the trace is one of calls. -/
inductive Stop.Sound (env : Environment) (cs : List ClassId) : Stop → Prop where
  | thrown {v : Value} {info : ExceptionInfo} (hv : v.Known cs) (htrace : env.Traces info.trace) :
    Sound env cs (.thrown v info)
  | cancelled : Sound env cs .cancelled
  | outOfFuel : Sound env cs .outOfFuel

/-- A machine in good order, with some calls in progress. -/
structure Machine.Sound (env : Environment) (as : List Activation) (m : Machine) : Prop where
  heap : m.heap.Sound env.hierarchy
  statics : ∀ entry ∈ m.statics, ∀ f ∈ entry.2, f.2.Known m.heap.classes
  frames : List.Forall₂ (Frame.Serves env.hierarchy m.heap.classes) m.frames as
  bounded : Activation.Bounded env.maxCallDepth as
  parked : ∀ stop ∈ m.parked, stop.Sound env m.heap.classes

/-- The value of a `return` is known. -/
def Flow.Known (cs : List ClassId) : Flow → Prop
  | .ret v => v.Known cs
  | _ => True

/-- Code inside other code is in a region with the same receiver. -/
theorem Served.inside {h : Hierarchy} {as : List Activation} {fits fits' : Region → Prop}
    (hs : Served h as fits) (hin : ∀ r, fits r → ∃ r', r'.hasSelf = r.hasSelf ∧ fits' r') :
    Served h as fits' := by
  intro hscoped
  obtain ⟨r, hr, hfits⟩ := hs hscoped
  obtain ⟨r', hself, hfits'⟩ := hin r hfits
  exact ⟨r', fun h => hr (hself ▸ h), hfits'⟩

/-- Code beside other code is in the same region. -/
theorem Served.imp {h : Hierarchy} {as : List Activation} {fits fits' : Region → Prop}
    (hs : Served h as fits) (himp : ∀ r, fits r → fits' r) : Served h as fits' :=
  hs.inside fun r hfits => ⟨r, rfl, himp r hfits⟩

/-! ## More objects -/

section

variable {h : Hierarchy} {cs cs' : List ClassId} (hcs : cs <+: cs')

include hcs

theorem Value.Known.mono {v : Value} (hv : v.Known cs) : v.Known cs' := by
  cases v with
  | object a => exact Nat.lt_of_lt_of_le hv hcs.length_le
  | _ => trivial

theorem Flow.Known.mono {flow : Flow} (hflow : flow.Known cs) : flow.Known cs' := by
  cases flow with
  | ret v => exact Value.Known.mono hcs hflow
  | _ => trivial

theorem getElem?_mono {a : Nat} {d : ClassId} (h : cs[a]? = some d) : cs'[a]? = some d := by
  obtain ⟨more, rfl⟩ := hcs
  obtain ⟨hlt, -⟩ := List.getElem?_eq_some_iff.1 h
  rwa [List.getElem?_append_left hlt]

theorem Value.Derives.mono {c : ClassId} {v : Value} (hv : v.Derives h cs c) :
    v.Derives h cs' c := by
  obtain ⟨a, d, rfl, hd, hc⟩ := hv
  exact ⟨a, d, rfl, getElem?_mono hcs hd, hc⟩

theorem Frame.Serves.mono {f : Frame} {a : Activation} (hf : f.Serves h cs a) :
    f.Serves h cs' a :=
  { hf with
    receiver := fun v hv => (hf.receiver v hv).mono hcs
    locals := fun v hv => (hf.locals v hv).mono hcs }

theorem Stop.Sound.mono {env : Environment} {e : Stop} (he : e.Sound env cs) :
    e.Sound env cs' := by
  cases he with
  | thrown hv htrace => exact .thrown (hv.mono hcs) htrace
  | cancelled => exact .cancelled
  | outOfFuel => exact .outOfFuel

end

namespace Value

variable {cs : List ClassId}

theorem Derives.known {h : Hierarchy} {c : ClassId} {v : Value} (hv : v.Derives h cs c) :
    v.Known cs := by
  obtain ⟨a, d, rfl, hd, -⟩ := hv
  exact (List.getElem?_eq_some_iff.1 hd).1

theorem known_ofLiteral (l : Literal) : (ofLiteral l).Known cs := by
  cases l <;> trivial

theorem known_ofOption (s : Option String) : (ofOption s).Known cs := by
  cases s <;> trivial

theorem known_getD {v : Option Value} (h : ∀ w ∈ v, w.Known cs) : (v.getD .null).Known cs := by
  cases v with
  | none => trivial
  | some w => exact h w rfl

end Value

/-! ## Objects and their fields -/

namespace Instance

variable {o : Instance} {name : String} {v : Value}

theorem isSome_get?_iff : (o.get? name).isSome ↔ name ∈ o.fields.map (·.1) := by
  rw [get?, ← Option.ne_none_iff_isSome, ne_eq, List.lookup_eq_none_iff, List.mem_map]
  constructor
  · intro hsome
    simp only [bne_iff_ne, ne_eq, not_forall, not_not] at hsome
    obtain ⟨f, hf, hname⟩ := hsome
    exact ⟨f, hf, hname.symm⟩
  · rintro ⟨f, hf, rfl⟩ hnone
    exact bne_iff_ne.1 (hnone f hf) rfl

theorem set?_eq_some {o' : Instance} (h : o.set? name v = some o') :
    o' = { o with fields := o.fields.map fun f => if f.1 == name then (name, v) else f } := by
  unfold set? at h
  split at h
  · exact (Option.some.inj h).symm
  · cases h

/-- Where a field is written, the fields stay those there are. -/
theorem names_of_set? {o' : Instance} (h : o.set? name v = some o') :
    o'.fields.map (·.1) = o.fields.map (·.1) := by
  rw [set?_eq_some h, List.map_map]
  refine List.map_congr_left fun f _ => ?_
  show (if f.1 == name then (name, v) else f).1 = f.1
  by_cases hf : f.1 = name
  · rw [if_pos (beq_iff_eq.2 hf), hf]
  · rw [if_neg (by simpa using hf)]

theorem names_define : (o.define name v).fields.map (·.1) =
    if name ∈ o.fields.map (·.1) then o.fields.map (·.1) else o.fields.map (·.1) ++ [name] := by
  unfold define
  cases hset : o.set? name v with
  | some o' =>
    have hname : (o.get? name).isSome := by
      unfold set? at hset
      split at hset
      · assumption
      · cases hset
    rw [if_pos (isSome_get?_iff.1 hname)]
    exact names_of_set? hset
  | none =>
    have hname : ¬(o.get? name).isSome := by
      intro hname
      rw [set?, if_pos hname] at hset
      cases hset
    rw [if_neg fun hmem => hname (isSome_get?_iff.2 hmem), List.map_append, List.map_singleton]

theorem cls_of_set? {o' : Instance} (h : o.set? name v = some o') : o'.cls = o.cls := by
  rw [set?_eq_some h]

theorem cls_define : (o.define name v).cls = o.cls := by
  unfold define
  cases hset : o.set? name v with
  | some o' => exact cls_of_set? hset
  | none => rfl

theorem known_of_set? {cs : List ClassId} {o' : Instance} (h : o.set? name v = some o')
    (ho : ∀ f ∈ o.fields, f.2.Known cs) (hv : v.Known cs) : ∀ f ∈ o'.fields, f.2.Known cs := by
  rw [set?_eq_some h]
  intro f hf
  obtain ⟨g, hg, rfl⟩ := List.mem_map.1 hf
  by_cases hname : (g.1 == name) = true
  · rw [if_pos hname]
    exact hv
  · rw [if_neg hname]
    exact ho g hg

theorem known_define {cs : List ClassId} (ho : ∀ f ∈ o.fields, f.2.Known cs) (hv : v.Known cs) :
    ∀ f ∈ (o.define name v).fields, f.2.Known cs := by
  unfold define
  cases hset : o.set? name v with
  | some o' => exact known_of_set? hset ho hv
  | none =>
    intro f hf
    rcases List.mem_append.1 hf with hf | hf
    · exact ho f hf
    · obtain rfl := List.mem_singleton.1 hf
      exact hv

theorem Fits.set? {h : Hierarchy} {o' : Instance} (ho : o.Fits h)
    (hset : o.set? name v = some o') : o'.Fits h := by
  rw [Fits, names_of_set? hset, cls_of_set? hset]
  exact ho

/-- A field that the class declares is there already. -/
theorem Fits.define {h : Hierarchy} (ho : o.Fits h) (hname : name ∈ h.fieldNames o.cls) :
    (o.define name v).Fits h := by
  rw [Fits, names_define, cls_define, ho, if_pos hname]

end Instance

namespace Evaluator

theorem eraseDups_concat (names : List String) (name : String) :
    (names ++ [name]).eraseDups =
      if name ∈ names.eraseDups then names.eraseDups else names.eraseDups ++ [name] := by
  rw [List.eraseDups_append]
  by_cases hname : name ∈ names
  · rw [if_pos (List.mem_eraseDups.2 hname)]
    simp [List.removeAll, hname]
  · rw [if_neg fun h => hname (List.mem_eraseDups.1 h)]
    simp [List.removeAll, hname, List.eraseDups_cons]

/-- Fields that are added one after the other are there once each, in the order in which they came
first. -/
theorem names_foldl_define (fields : List (ClassId × FieldDef)) {o : Instance} {names : List String}
    (ho : o.fields.map (·.1) = names.eraseDups) :
    (fields.foldl (fun o f => o.define f.2.name .null) o).fields.map (·.1) =
      (names ++ fields.map (·.2.name)).eraseDups := by
  induction fields generalizing o names with
  | nil => rw [List.foldl_nil, List.map_nil, List.append_nil, ho]
  | cons f fields ih =>
    have hnext : (o.define f.2.name .null).fields.map (·.1) = (names ++ [f.2.name]).eraseDups := by
      rw [Instance.names_define, ho, eraseDups_concat]
    rw [List.foldl_cons, ih hnext, List.map_cons, List.append_assoc, List.singleton_append]

theorem cls_foldl_define (fields : List (ClassId × FieldDef)) (o : Instance) :
    (fields.foldl (fun o f => o.define f.2.name .null) o).cls = o.cls := by
  induction fields generalizing o with
  | nil => rfl
  | cons f fields ih => rw [List.foldl_cons, ih, Instance.cls_define]

theorem known_foldl_define {cs : List ClassId} (fields : List (ClassId × FieldDef)) {o : Instance}
    (ho : ∀ f ∈ o.fields, f.2.Known cs) :
    ∀ f ∈ (fields.foldl (fun o f => o.define f.2.name .null) o).fields, f.2.Known cs := by
  induction fields generalizing o with
  | nil => exact ho
  | cons f fields ih => exact ih (Instance.known_define ho trivial)

theorem cls_blankInstance (h : Hierarchy) (c : ClassId) : (blankInstance h c).cls = c :=
  cls_foldl_define _ _

/-- A new object has the fields of its class. -/
theorem fits_blankInstance (h : Hierarchy) (c : ClassId) : (blankInstance h c).Fits h := by
  have hnone : (⟨c, (h.typeDef c).name, []⟩ : Instance).fields.map (·.1) =
      ([] : List String).eraseDups := rfl
  rw [Instance.Fits, cls_blankInstance]
  exact names_foldl_define _ hnone

theorem known_blankInstance {cs : List ClassId} (h : Hierarchy) (c : ClassId) :
    ∀ f ∈ (blankInstance h c).fields, f.2.Known cs :=
  known_foldl_define _ fun _ hf => absurd hf List.not_mem_nil

end Evaluator

/-! ## Heaps -/

namespace Heap

variable {h : Hierarchy} {heap : Heap}

theorem length_classes : heap.classes.length = heap.objects.size := by
  rw [classes, List.length_map, Array.length_toList]

theorem classes_getElem? {a : Nat} (ha : a < heap.objects.size) :
    heap.classes[a]? = some (heap.instance_ a).cls := by
  rw [classes, List.getElem?_map, Array.getElem?_toList, instance_, Array.getElem?_eq_getElem ha,
    Array.getD_eq_getD_getElem?, Array.getElem?_eq_getElem ha]
  rfl

theorem instance_mem {a : Nat} (ha : a < heap.objects.size) : heap.instance_ a ∈ heap.objects := by
  rw [instance_, Array.getD_eq_getD_getElem?, Array.getElem?_eq_getElem ha, Option.getD_some]
  exact Array.getElem_mem ha

theorem known_of_mem_items (hs : heap.Sound h) {a : Nat} {v : Value} (hv : v ∈ heap.items a) :
    v.Known heap.classes := by
  rw [items, Array.getD_eq_getD_getElem?] at hv
  by_cases ha : a < heap.lists.size
  · rw [Array.getElem?_eq_getElem ha, Option.getD_some] at hv
    exact hs.items _ (Array.getElem_mem ha) v hv
  · rw [Array.getElem?_eq_none (by omega), Option.getD_none] at hv
    exact absurd hv (Array.not_mem_empty v)

theorem known_result (hs : heap.Sound h) (a : Nat) : (heap.result a).Known heap.classes := by
  rw [result, Array.getD_eq_getD_getElem?]
  apply Value.known_getD
  intro v hv
  exact hs.results v (Array.mem_of_getElem? hv)

/-- The fields of an object hold known values; one that there is not has none. -/
theorem known_of_get? (hs : heap.Sound h) {a : Nat} {name : String} {v : Value}
    (hv : (heap.instance_ a).get? name = some v) : v.Known heap.classes := by
  have hmem : (name, v) ∈ (heap.instance_ a).fields := by
    obtain ⟨before, after, heq, -⟩ := List.lookup_eq_some_iff.1 hv
    rw [heq]
    exact List.mem_append_right _ List.mem_cons_self
  by_cases ha : a < heap.objects.size
  · exact hs.fields _ (instance_mem ha) _ hmem
  · rw [instance_, Array.getD_eq_getD_getElem?, Array.getElem?_eq_none (by omega)] at hmem
    exact absurd hmem List.not_mem_nil

namespace Grows

theorem refl (hs : heap.Sound h) : heap.Grows h heap :=
  ⟨hs, List.prefix_rfl⟩

theorem trans {heap' heap'' : Heap} (hg : heap.Grows h heap') (hg' : heap'.Grows h heap'') :
    heap.Grows h heap'' :=
  ⟨hg'.sound, hg.classes.trans hg'.classes⟩

theorem newList (hs : heap.Sound h) {items : Array Value}
    (hitems : ∀ v ∈ items, v.Known heap.classes) : heap.Grows h (heap.newList items).2 := by
  refine ⟨⟨fun items' hmem => ?_, hs.fields, hs.results, hs.fits⟩, List.prefix_rfl⟩
  rcases Array.mem_push.1 hmem with hmem | rfl
  · exact hs.items items' hmem
  · exact hitems

theorem newTask (hs : heap.Sound h) {v : Value} (hv : v.Known heap.classes) :
    heap.Grows h (heap.newTask v).2 := by
  refine ⟨⟨hs.items, hs.fields, fun w hw => ?_, hs.fits⟩, List.prefix_rfl⟩
  rcases Array.mem_push.1 hw with hw | rfl
  · exact hs.results w hw
  · exact hv

theorem newHost (hs : heap.Sound h) (object : HostObject) :
    heap.Grows h (heap.newHost object).2 :=
  ⟨⟨hs.items, hs.fields, hs.results, hs.fits⟩, List.prefix_rfl⟩

theorem newObject (hs : heap.Sound h) {o : Instance} (ho : ∀ f ∈ o.fields, f.2.Known heap.classes)
    (hfits : h.FaultsFit → o.Fits h) : heap.Grows h (heap.newObject o).2 := by
  have hclasses : (heap.newObject o).2.classes = heap.classes ++ [o.cls] := by
    rw [Heap.newObject, Heap.classes, Heap.classes, Array.toList_push, List.map_append,
      List.map_singleton]
  have hprefix : heap.classes <+: (heap.newObject o).2.classes := hclasses ▸ List.prefix_append _ _
  refine ⟨⟨?_, ?_, ?_, ?_⟩, hprefix⟩
  · exact fun items hitems v hv => (hs.items items hitems v hv).mono hprefix
  · intro o' ho' f hf
    rcases Array.mem_push.1 ho' with ho' | rfl
    · exact (hs.fields o' ho' f hf).mono hprefix
    · exact (ho f hf).mono hprefix
  · exact fun v hv => (hs.results v hv).mono hprefix
  · intro hfaults o' ho'
    rcases Array.mem_push.1 ho' with ho' | rfl
    · exact hs.fits hfaults o' ho'
    · exact hfits hfaults

/-- A list's items are changed to values that are known. -/
theorem modifyList (hs : heap.Sound h) (a : Nat) {f : Array Value → Array Value}
    (hf : ∀ items, (∀ v ∈ items, v.Known heap.classes) → ∀ v ∈ f items, v.Known heap.classes) :
    heap.Grows h (heap.modifyList a f) := by
  refine ⟨⟨fun items hmem => ?_, hs.fields, hs.results, hs.fits⟩, List.prefix_rfl⟩
  obtain ⟨i, hi, rfl⟩ := Array.getElem_of_mem hmem
  have hsize : i < heap.lists.size := by
    have hi' : i < (heap.lists.modify a f).size := hi
    rwa [Array.size_modify] at hi'
  have hget : (heap.modifyList a f).lists[i] =
      if a = i then f heap.lists[i] else heap.lists[i] := Array.getElem_modify hi
  rw [hget]
  have hold := hs.items _ (Array.getElem_mem hsize)
  by_cases ha : a = i
  · rw [if_pos ha]
    exact hf _ hold
  · rw [if_neg ha]
    exact hold

/-- An object is replaced by one of the same class. -/
theorem setObject (hs : heap.Sound h) {a : Nat} {o : Instance}
    (hcls : o.cls = (heap.instance_ a).cls) (ho : ∀ f ∈ o.fields, f.2.Known heap.classes)
    (hfits : h.FaultsFit → (heap.instance_ a).Fits h → o.Fits h) :
    heap.Grows h (heap.setObject a o) := by
  -- Where there is no object, nothing is replaced.
  by_cases ha : a < heap.objects.size
  · have hlength : a < heap.classes.length := by rwa [length_classes]
    have hclasses : (heap.setObject a o).classes = heap.classes := by
      have hset : (heap.setObject a o).classes = heap.classes.set a o.cls := by
        rw [Heap.setObject, Heap.classes, Heap.classes, Array.toList_setIfInBounds, List.map_set]
      have hget : heap.classes[a] = o.cls := by
        rw [hcls]
        exact Option.some.inj ((List.getElem?_eq_getElem hlength).symm.trans (classes_getElem? ha))
      rw [hset, ← hget, List.set_getElem_self]
    refine ⟨⟨?_, ?_, ?_, ?_⟩, hclasses ▸ List.prefix_rfl⟩
    · rw [hclasses]
      exact hs.items
    · rw [hclasses]
      intro o' ho'
      rcases Array.mem_or_eq_of_mem_setIfInBounds ho' with ho' | rfl
      · exact hs.fields o' ho'
      · exact ho
    · rw [hclasses]
      exact hs.results
    · intro hfaults o' ho'
      rcases Array.mem_or_eq_of_mem_setIfInBounds ho' with ho' | rfl
      · exact hs.fits hfaults o' ho'
      · exact hfits hfaults (hs.fits hfaults _ (instance_mem ha))
  · have hsame : heap.setObject a o = heap := by
      rw [Heap.setObject, Array.setIfInBounds_eq_of_size_le (by omega)]
    rw [hsame]
    exact refl hs

theorem newViews (hs : heap.Sound h) (objects : List HostObject) :
    heap.Grows h (heap.newViews objects).2 := by
  -- The views that there are so far are known: they are no objects of the program.
  have hviews : ∀ (views : Array Value) (heap' : Heap), heap.Grows h heap' →
      (∀ v ∈ views, v.Known heap'.classes) →
      let placed := objects.foldl (fun (placed : Array Value × Heap) object =>
        (placed.1.push (placed.2.newHost object).1, (placed.2.newHost object).2)) (views, heap')
      heap.Grows h placed.2 ∧ ∀ v ∈ placed.1, v.Known placed.2.classes := by
    induction objects with
    | nil => exact fun views heap' hgrows hknown => ⟨hgrows, hknown⟩
    | cons object objects ih =>
      intro views heap' hgrows hknown
      apply ih
      · exact hgrows.trans (newHost hgrows.sound object)
      · intro v hv
        rcases Array.mem_push.1 hv with hv | rfl
        · exact hknown v hv
        · trivial
  obtain ⟨hgrows, hknown⟩ := hviews #[] heap (refl hs) fun v hv => absurd hv (Array.not_mem_empty v)
  exact hgrows.trans (newList hgrows.sound hknown)

end Grows

/-! ## Operators -/

theorem known_unary {op : UnaryOp} {v r : Value} (h : heap.unary op v = .ok r) :
    r.Known heap.classes := by
  unfold unary at h
  split at h <;> cases h <;> trivial

theorem known_index (hs : heap.Sound h) {target i r : Value} (hr : heap.index target i = .ok r) :
    r.Known heap.classes := by
  unfold index at hr
  split at hr
  · cases hr
  · split at hr
    · next hget =>
      cases hr
      obtain ⟨k, -, hk⟩ := Option.bind_eq_some_iff.1 hget
      exact known_of_mem_items hs (Array.mem_of_getElem? hk)
    · cases hr
  · split at hr <;> cases hr
    trivial
  · cases hr

theorem known_builtinMember (hs : heap.Sound h) {target r : Value} {name : String}
    (hr : heap.builtinMember target name = .ok r) : r.Known heap.classes := by
  unfold builtinMember at hr
  split at hr
  · cases hr
    trivial
  · cases hr
    trivial
  · cases hr
    exact known_result hs _
  · cases hr

/-- What is placed on a heap, and leads there. -/
structure Places (h : Hierarchy) (heap : Heap) (placed : Value × Heap) : Prop where
  grows : heap.Grows h placed.2
  known : placed.1.Known placed.2.classes

theorem Places.here (hs : heap.Sound h) {v : Value} (hv : v.Known heap.classes) :
    heap.Places h (v, heap) :=
  ⟨.refl hs, hv⟩

theorem Places.newList (hs : heap.Sound h) {items : Array Value}
    (hitems : ∀ v ∈ items, v.Known heap.classes) : heap.Places h (heap.newList items) :=
  ⟨.newList hs hitems, trivial⟩

theorem Places.newTask (hs : heap.Sound h) {v : Value} (hv : v.Known heap.classes) :
    heap.Places h (heap.newTask v) :=
  ⟨.newTask hs hv, trivial⟩

theorem Places.newHost (hs : heap.Sound h) (object : HostObject) :
    heap.Places h (heap.newHost object) :=
  ⟨.newHost hs object, trivial⟩

theorem Places.newViews (hs : heap.Sound h) (objects : List HostObject) :
    heap.Places h (heap.newViews objects) :=
  ⟨.newViews hs objects, trivial⟩

theorem places_arithmetic (hs : heap.Sound h) {op : BinaryOp} {a b : Value}
    {placed : Value × Heap} (hp : heap.arithmetic op a b = .ok placed) : heap.Places h placed := by
  unfold arithmetic at hp
  split at hp
  · next x y =>
    cases hn : Value.intArithmetic op x y with
    | error f =>
      rw [hn] at hp
      cases hp
    | ok n =>
      rw [hn] at hp
      cases hp
      exact .here hs trivial
  · cases hp
    apply Places.newList hs
    intro v hv
    rcases Array.mem_append.1 hv with hv | hv <;> exact known_of_mem_items hs hv
  · split at hp
    · cases hp
      exact .here hs trivial
    · cases hp

/-- An operation puts a value on the heap at most where it joins two lists. -/
theorem places_binary (hs : heap.Sound h) {op : BinaryOp} {a b : Value} {placed : Value × Heap}
    (hp : heap.binary op a b = .ok placed) : heap.Places h placed := by
  unfold binary at hp
  split at hp
  case h_5 | h_6 | h_7 | h_8 =>
    split at hp
    · cases hp
      exact .here hs trivial
    · cases hp
  case h_9 | h_10 | h_11 | h_12 | h_13 => exact places_arithmetic hs hp
  all_goals
    cases hp
    exact .here hs trivial

theorem grows_setIndex (hs : heap.Sound h) {target i v : Value} {heap' : Heap}
    (hv : v.Known heap.classes) (hset : heap.setIndex target i v = .ok heap') :
    heap.Grows h heap' := by
  unfold setIndex at hset
  split at hset
  · cases hset
  · split at hset
    · split at hset
      · cases hset
        apply Grows.modifyList hs
        intro items hitems w hw
        rcases Array.mem_or_eq_of_mem_setIfInBounds hw with hw | rfl
        · exact hitems w hw
        · exact hv
      · cases hset
    · cases hset
  · cases hset

end Heap

end GenLang
