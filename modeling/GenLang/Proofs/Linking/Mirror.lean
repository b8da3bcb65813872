import Mathlib.Algebra.Order.BigOperators.Group.List
import Mathlib.Algebra.Order.Group.Nat
import GenLang.Proofs.Graph
import GenLang.Proofs.Linking.Holds

/-!
# Tables and hierarchies that mirror each other

A table of symbols and a hierarchy of classes mirror each other if symbols stand for classes one to
one and name as bases what the classes have as base class and capabilities. Look-ups along the bases
then find the same on both sides.
-/

namespace GenLang

/-! ## Reaching names -/

namespace SymbolTable

variable {s : SymbolTable} {t : TypeSymbol}

theorem basesOf_eq (h : t ∈ s.types) : s.basesOf t.name = t.bases := by
  rw [basesOf, find?_of_mem h]

theorem known_or_basesOf_eq_nil (s : SymbolTable) (name : String) :
    name ∈ s.types.map (·.name) ∨ s.basesOf name = [] := by
  rw [basesOf]
  cases h : s.find? name with
  | none => exact .inr rfl
  | some t =>
    obtain ⟨ht, rfl⟩ := mem_of_find? h
    exact .inl (List.mem_map_of_mem ht)

/-- The bound of a work list covers the bases of all types. -/
theorem visits_reachable {start : List String}
    (hstart : start.length ≤ (s.types.flatMap (·.bases)).length + 2) :
    Graph.Visits s.basesOf start [] (s.reachable start) := by
  have hpending : Graph.pending s.basesOf (s.types.map (·.name)) [] =
      (s.types.flatMap (·.bases)).length := by
    rw [Graph.pending, List.map_map, List.length_flatMap]
    refine congrArg List.sum (List.map_congr_left fun t ht => ?_)
    show (if t.name ∈ [] then 0 else (s.basesOf t.name).length) = _
    rw [if_neg List.not_mem_nil, basesOf_eq ht]
  have hnodes : ∀ x ∈ s.types.map (·.name), ∀ y ∈ s.basesOf x,
      y ∈ s.types.map (·.name) ∨ s.basesOf y = [] :=
    fun _ _ y _ => s.known_or_basesOf_eq_nil y
  apply Graph.visits_visit hnodes _ _ _ fun x _ => s.known_or_basesOf_eq_nil x
  rw [hpending, edgeBound]
  omega

theorem length_basesOf_le (s : SymbolTable) (name : String) :
    (s.basesOf name).length ≤ (s.types.flatMap (·.bases)).length := by
  rw [basesOf]
  cases h : s.find? name with
  | none => exact Nat.zero_le _
  | some t =>
    have hmem := List.mem_map_of_mem (f := (·.bases)) (mem_of_find? h).1
    rw [List.flatMap_def]
    exact (List.sublist_flatten_of_mem hmem).length_le

/-- The search for a cycle ends. -/
theorem visits_basesOf (s : SymbolTable) (name : String) :
    Graph.Visits s.basesOf (s.basesOf name) [] (s.reachable (s.basesOf name)) :=
  visits_reachable ((s.length_basesOf_le name).trans (Nat.le_add_right _ _))

theorem inCycle_iff {name : String} :
    s.inCycle name = true ↔ ∃ b ∈ s.basesOf name, Graph.Reaches s.basesOf b name := by
  rw [inCycle, List.contains_iff_mem, (s.visits_basesOf name).mem_iff]

/-- The search for capabilities ends. -/
theorem visits_name (s : SymbolTable) (name : String) :
    Graph.Visits s.basesOf [name] [] (s.reachable [name]) :=
  visits_reachable (Nat.le_add_left 1 _)

/-- The capabilities of a type are what its bases lead to and is a capability other than the type
itself. -/
theorem mem_capabilitiesOf_iff {name : String} :
    t ∈ s.capabilitiesOf name ↔
      t ∈ s.types ∧ t.isCapability ∧ t.name ≠ name ∧ Graph.Reaches s.basesOf name t.name := by
  have hreached (n : String) : n ∈ s.reachable [name] ↔ Graph.Reaches s.basesOf name n := by
    rw [(s.visits_name name).mem_iff]
    simp
  rw [capabilitiesOf, List.mem_mergeSort, List.mem_filter, List.mem_filterMap, Bool.and_eq_true,
    bne_iff_ne]
  constructor
  · rintro ⟨⟨n, hn, hfind⟩, hcapability, hne⟩
    obtain ⟨ht, rfl⟩ := mem_of_find? hfind
    exact ⟨ht, hcapability, hne, (hreached _).1 hn⟩
  · rintro ⟨ht, hcapability, hne, hreaches⟩
    exact ⟨⟨t.name, (hreached _).2 hreaches, find?_of_mem ht⟩, hcapability, hne⟩

/-- A capability among what the bases of another type lead to. -/
theorem implements_iff {name : String} (ht : t ∈ s.types) (hcapability : t.isCapability)
    (hne : name ≠ t.name) :
    s.implements name t.name ↔ Graph.Reaches s.basesOf name t.name := by
  rw [implements, List.any_eq_true]
  constructor
  · rintro ⟨u, hu, heq⟩
    rw [← beq_iff_eq.1 heq]
    exact (mem_capabilitiesOf_iff.1 hu).2.2.2
  · intro h
    exact ⟨t, mem_capabilitiesOf_iff.2 ⟨ht, hcapability, hne.symm, h⟩, beq_self_eq_true _⟩

end SymbolTable

/-! ## All classes -/

namespace Hierarchy

variable {h : Hierarchy}

def allClasses (h : Hierarchy) : List ClassId :=
  (List.range (h.mainIndex + 1)).flatMap fun m =>
    (List.range (h.module m).types.length).map (⟨m, ·⟩)

theorem mem_allClasses {x : ClassId} : x ∈ h.allClasses ↔ h.HasClass x := by
  rw [allClasses, List.mem_flatMap]
  constructor
  · rintro ⟨m, hm, hx⟩
    obtain ⟨i, hi, rfl⟩ := List.mem_map.1 hx
    exact ⟨Nat.le_of_lt_succ (List.mem_range.1 hm), List.mem_range.1 hi⟩
  · rintro ⟨hm, hi⟩
    exact ⟨x.module, List.mem_range.2 (Nat.lt_succ_of_le hm),
      List.mem_map.2 ⟨x.index, List.mem_range.2 hi, rfl⟩⟩

theorem map_typeDef_allClasses (h : Hierarchy) :
    h.allClasses.map h.typeDef = (h.libraries ++ [h.main]).flatMap (·.types) := by
  have hmodules : (List.range (h.mainIndex + 1)).map h.module = h.libraries ++ [h.main] := by
    rw [List.range_succ, List.map_append, List.map_singleton, module_mainIndex]
    congr 1
    apply List.ext_getElem
    · rw [List.length_map, List.length_range, mainIndex]
    · intro i _ hi
      rw [List.getElem_map, List.getElem_range, module_of_lt hi]
  have htypes (m : Nat) : ((List.range (h.module m).types.length).map
      fun i => h.typeDef ⟨m, i⟩) = (h.module m).types := by
    apply List.ext_getElem
    · rw [List.length_map, List.length_range]
    · intro i _ hi
      rw [List.getElem_map, List.getElem_range]
      exact (List.getElem_eq_getD default).symm
  rw [allClasses, List.map_flatMap, ← hmodules, List.flatMap_map]
  refine List.flatMap_congr fun m _ => ?_
  rw [List.map_map]
  exact htypes m

theorem length_allClasses (h : Hierarchy) : h.allClasses.length = h.classCount := by
  rw [← List.length_map h.typeDef, map_typeDef_allClasses, classCount]

theorem mem_supers_of_base? {x y : ClassId} (hy : h.base? x = some y) : y ∈ h.supers x := by
  obtain ⟨r, hr, hresolve⟩ := Option.bind_eq_some_iff.1 hy
  rw [supers, List.mem_filterMap]
  exact ⟨r, List.mem_append_left _ (Option.mem_toList.2 hr), hresolve⟩

/-- What a class is, inherits or has. -/
theorem implements_iff (hsupers : ∀ x, h.HasClass x → ∀ y ∈ h.supers x, h.HasClass y)
    {x y : ClassId} (hx : h.HasClass x) :
    h.implements x y ↔ Graph.Reaches h.supers x y := by
  have hnodes : ∀ z ∈ h.allClasses, ∀ w ∈ h.supers z, w ∈ h.allClasses ∨ h.supers w = [] :=
    fun z hz w hw => .inl (mem_allClasses.2 (hsupers z (mem_allClasses.1 hz) w hw))
  have hpending : Graph.pending h.supers h.allClasses [] ≤ (((h.libraries ++ [h.main]).flatMap
      (·.types)).flatMap fun t => t.base.toList ++ t.capabilities).length := by
    rw [← map_typeDef_allClasses, List.flatMap_map, List.length_flatMap, Graph.pending]
    apply List.sum_le_sum
    intro z _
    rw [if_neg List.not_mem_nil]
    exact List.length_filterMap_le _ _
  have hvisits : Graph.Visits h.supers [x] [] (Graph.visit h.supers h.edgeBound [x] []) := by
    refine Graph.visits_visit hnodes _ _ _ (fun z hz => ?_) ?_
    · obtain rfl := List.mem_singleton.1 hz
      exact .inl (mem_allClasses.2 hx)
    · rw [edgeBound, List.length_singleton]
      omega
  rw [implements, List.contains_iff_mem, hvisits.mem_iff]
  simp

end Hierarchy

/-! ## Mirrors -/

/-- What is found first in two lists looks alike, if it does in items that correspond. -/
theorem map_findSome?_of_forall₂ {α β γ δ ε : Type} {R : α → β → Prop} {f : α → Option γ}
    {g : β → Option δ} {old : γ → ε} {new : δ → ε}
    (hfg : ∀ a b, R a b → (f a).map old = (g b).map new) {as : List α} {bs : List β}
    (hall : List.Forall₂ R as bs) : (as.findSome? f).map old = (bs.findSome? g).map new := by
  induction hall with
  | nil => rfl
  | @cons a b as bs hab _ ih =>
    have hhead := hfg a b hab
    rw [List.findSome?_cons, List.findSome?_cons]
    cases hf : f a with
    | none =>
      rw [hf, Option.map_none, eq_comm, Option.map_eq_none_iff] at hhead
      rw [hhead]
      exact ih
    | some c =>
      rw [hf, Option.map_some, eq_comm, Option.map_eq_some_iff] at hhead
      obtain ⟨d, hd, hcd⟩ := hhead
      rw [hd]
      exact congrArg some hcd.symm

/-- The name by which every module knows a class. -/
def Hierarchy.nameOf (h : Hierarchy) (x : ClassId) : String :=
  (h.typeDef x).name

structure Mirrors (s : SymbolTable) (h : Hierarchy) : Prop where
  stands : ∀ t ∈ s.types, ∃ x, h.Stands t x
  known : ∀ x, h.HasClass x → ∃ t ∈ s.types, t.name = h.nameOf x
  unique : ∀ x y, h.HasClass x → h.HasClass y → h.nameOf x = h.nameOf y → x = y
  hasClass : ∀ x, h.HasClass x → ∀ y ∈ h.supers x, h.HasClass y
  base : ∀ x, h.HasClass x → (s.base? (h.nameOf x)).map (·.name) = (h.base? x).map h.nameOf
  bases : ∀ x, h.HasClass x → ∀ name,
    name ∈ s.basesOf (h.nameOf x) ↔ ∃ y ∈ h.supers x, h.nameOf y = name

namespace Mirrors

variable {s : SymbolTable} {h : Hierarchy} (hm : Mirrors s h)

include hm

theorem find?_nameOf {x : ClassId} (hx : h.HasClass x) :
    ∃ t, s.find? (h.nameOf x) = some t ∧ h.Stands t x := by
  obtain ⟨t, ht, hname⟩ := hm.known x hx
  obtain ⟨y, hy⟩ := hm.stands t ht
  have hxy : y = x := hm.unique y x hy.hasClass hx (hy.shows.name.symm.trans hname)
  rw [← hname, SymbolTable.find?_of_mem ht]
  exact ⟨t, rfl, hxy ▸ hy⟩

theorem length_types_le : s.types.length ≤ h.classCount := by
  have hsub : s.types.map (·.name) ⊆ h.allClasses.map h.nameOf := by
    intro name hname
    obtain ⟨t, ht, rfl⟩ := List.mem_map.1 hname
    obtain ⟨x, hx⟩ := hm.stands t ht
    exact List.mem_map.2 ⟨x, Hierarchy.mem_allClasses.2 hx.hasClass, hx.shows.name.symm⟩
  have hlength := (List.subperm_of_subset s.nodup hsub).length_le
  rwa [List.length_map, List.length_map, Hierarchy.length_allClasses] at hlength

/-- A type and the types it is based on stand for a class and the classes it is based on. -/
theorem ancestors {x : ClassId} (hx : h.HasClass x) :
    List.Forall₂ h.Stands (s.ancestors (h.nameOf x)) (h.ancestors x) := by
  have hbase : ∀ y, h.HasClass y → ∀ z ∈ h.base? y, h.HasClass z :=
    fun y hy z hz => hm.hasClass y hy z (Hierarchy.mem_supers_of_base? hz)
  have hchain : Graph.chain (fun n => (s.base? n).map (·.name)) (h.classCount + 1) []
      (some (h.nameOf x)) = (h.ancestors x).map h.nameOf :=
    Graph.chain_map hm.unique hbase hm.base _ (fun _ h => absurd h List.not_mem_nil)
      (fun y hy => Option.some.inj hy ▸ hx)
  have hclasses : ∀ y ∈ h.ancestors x, h.HasClass y := by
    have hclosed : ∀ z ∈ h.allClasses, ∀ w ∈ h.base? z, w ∈ h.allClasses := fun z hz w hw =>
      Hierarchy.mem_allClasses.2 (hbase z (Hierarchy.mem_allClasses.1 hz) w hw)
    have hstart : ∀ z ∈ some x, z ∈ h.allClasses := fun z hz =>
      Option.some.inj hz ▸ Hierarchy.mem_allClasses.2 hx
    exact fun y hy => Hierarchy.mem_allClasses.1 (Graph.chain_subset hclosed _ [] hstart hy)
  obtain ⟨t, hfind, -⟩ := hm.find?_nameOf hx
  obtain ⟨ht, hname⟩ := SymbolTable.mem_of_find? hfind
  -- neither bound cuts the chain off
  have hfuel : Graph.chain (fun n => (s.base? n).map (·.name)) s.types.length []
      (some (h.nameOf x)) = (h.ancestors x).map h.nameOf := by
    rw [← hchain]
    have hclosed : ∀ n ∈ s.types.map (·.name), ∀ y ∈ (s.base? n).map (·.name),
        y ∈ s.types.map (·.name) := by
      intro n _ y hy
      obtain ⟨u, hu, rfl⟩ := Option.map_eq_some_iff.1 hy
      obtain ⟨b, -, hb⟩ := List.mem_filterMap.1 (List.mem_of_find?_eq_some hu)
      exact List.mem_map_of_mem (SymbolTable.mem_of_find? hb).1
    have hstart : ∀ n ∈ some (h.nameOf x), n ∈ s.types.map (·.name) := by
      intro n hn
      rw [← Option.some.inj hn, ← hname]
      exact List.mem_map_of_mem ht
    have hlength := hm.length_types_le
    exact Graph.chain_of_le hclosed hstart (by rw [List.length_map])
      (by rw [List.length_map]; omega)
  have hback (ys : List ClassId) (hys : ∀ y ∈ ys, h.HasClass y) :
      List.Forall₂ h.Stands ((ys.map h.nameOf).filterMap s.find?) ys := by
    induction ys with
    | nil => exact .nil
    | cons y ys ih =>
      obtain ⟨u, hu, hstands⟩ := hm.find?_nameOf (hys y List.mem_cons_self)
      rw [List.map_cons, List.filterMap_cons_some hu]
      exact .cons hstands (ih fun z hz => hys z (List.mem_cons_of_mem y hz))
  rw [SymbolTable.ancestors, hfind, Option.map_some, hname, hfuel]
  exact hback _ hclasses

/-- A method is found in the same type, and as its symbol tells. -/
theorem method? {x : ClassId} (hx : h.HasClass x) (name : String) :
    (s.method? (h.nameOf x) name).map (fun found => (found.1.ref, found.2)) =
      (h.findMethod? x name).map fun found => (h.refOf found.1, .ofDef found.2) := by
  refine map_findSome?_of_forall₂ (fun t y hy => ?_) (hm.ancestors hx)
  rw [hy.shows.method?, Option.map_map, Option.map_map, Option.map_map]
  congr 1
  funext m
  exact congrArg (·, MethodSymbol.ofDef m) hy.ref.symm

/-- A type has a capability if its class has the class of the capability. -/
theorem implements {t u : TypeSymbol} {x y : ClassId} (hx : h.Stands t x) (hy : h.Stands u y)
    (hu : u ∈ s.types) (hcapability : u.isCapability) (hne : t.name ≠ u.name) :
    s.implements t.name u.name = h.implements x y := by
  have hbases : ∀ z, h.HasClass z → ∀ name, name ∈ s.basesOf (h.nameOf z) ↔
      ∃ w ∈ h.supers z, h.nameOf w = name := hm.bases
  have hreaches := Graph.reaches_map_iff hm.hasClass hbases hx.hasClass (x := h.nameOf y)
  rw [Bool.eq_iff_iff, SymbolTable.implements_iff hu hcapability hne,
    Hierarchy.implements_iff hm.hasClass hx.hasClass, hx.shows.name, hy.shows.name]
  refine hreaches.trans ⟨?_, fun h => ⟨y, h, hy.hasClass, rfl⟩⟩
  rintro ⟨z, hz, hclass, hname⟩
  rwa [← hm.unique z y hclass hy.hasClass hname]

end Mirrors

end GenLang
