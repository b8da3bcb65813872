import GenLang.Proofs.Linking.Joins
import GenLang.Proofs.Linking.Mirror

/-!
# Layered hierarchies

In a hierarchy whose modules join the libraries before them, a name belongs to one class only, and
what a class is based on is resolved to classes of the names and kinds that were meant.
-/

namespace GenLang

namespace Hierarchy

variable {h : Hierarchy}

/-- Every module joins the libraries before it, the module that is run all of them. -/
structure Layered (h : Hierarchy) : Prop where
  names : (h.libraries.map (·.name)).Nodup
  joins : ∀ m ≤ h.mainIndex, Joins (h.libraries.take m) (h.module m)

theorem layered_of_stack (hstack : Stack h.libraries) (hjoins : Joins h.libraries h.main) :
    h.Layered := by
  refine ⟨hstack.names_nodup, fun m hm => ?_⟩
  by_cases hlast : m < h.mainIndex
  · rw [module_of_lt hlast]
    exact hstack.joins_take hlast
  · obtain rfl : m = h.mainIndex := by omega
    rw [module_mainIndex, mainIndex, List.take_length]
    exact hjoins

namespace Layered

variable (hlayered : h.Layered)

include hlayered

/-- A reference is resolved to what it was declared for. -/
theorem resolve {m : Nat} (hm : m ≤ h.mainIndex) {r : TypeRef} {u : TypeDef}
    (hu : Declares (h.libraries.take m) (h.module m) r u) :
    ∃ y, h.resolve? m r = some y ∧ h.HasClass y ∧ h.typeDef y = u := by
  cases hu with
  | own hu =>
    have hfind := find?_of_nodup (hlayered.joins m hm).nodup hu
    obtain ⟨y, hy, -, hclass, hdef⟩ := findIn?_of_find? hm hfind
    exact ⟨y, hy, hclass, hdef⟩
  | @library l u hl hu =>
    have hmem := List.mem_of_mem_take hl
    obtain ⟨i, hi, hget⟩ := List.getElem_of_mem hmem
    have hnodup := (hlayered.joins i (Nat.le_of_lt hi)).nodup
    rw [module_of_lt hi, hget] at hnodup
    obtain ⟨y, hy, hclass, -, -, hdef⟩ :=
      resolve?_library hlayered.names hmem (find?_of_nodup hnodup hu) m
    exact ⟨y, hy, hclass, hdef⟩

/-- Classes of one name are one class. -/
theorem unique {x y : ClassId} (hx : h.HasClass x) (hy : h.HasClass y)
    (hname : h.nameOf x = h.nameOf y) : x = y := by
  -- No module declares a name that a library before it declares.
  have hlater {x y : ClassId} (hx : h.HasClass x) (hy : h.HasClass y)
      (hlt : x.module < y.module) : h.nameOf x ≠ h.nameOf y := by
    have hbefore : x.module < h.mainIndex := Nat.lt_of_lt_of_le hlt hy.module
    have hmem : h.module x.module ∈ h.libraries.take y.module := by
      rw [module_of_lt hbefore, List.mem_take_iff_getElem]
      exact ⟨x.module, Nat.lt_min.2 ⟨hlt, hbefore⟩, rfl⟩
    exact (hlayered.joins _ hy.module).fresh _ (typeDef_mem hy) _ hmem _ (typeDef_mem hx)
  rcases Nat.lt_trichotomy x.module y.module with hlt | heq | hlt
  · exact absurd hname (hlater hx hy hlt)
  · obtain ⟨m, i⟩ := x
    obtain ⟨n, j⟩ := y
    obtain rfl : m = n := heq
    -- within one module the names are distinct
    have hnodup := (hlayered.joins m hx.module).nodup
    unfold nameOf at hname
    rw [typeDef_eq _ hx.index, typeDef_eq _ hy.index] at hname
    congr 1
    have hi : i < ((h.module m).types.map (·.name)).length := by
      rw [List.length_map]
      exact hx.index
    have hj : j < ((h.module m).types.map (·.name)).length := by
      rw [List.length_map]
      exact hy.index
    have hmap : ((h.module m).types.map (·.name))[i] = ((h.module m).types.map (·.name))[j] := by
      rwa [List.getElem_map, List.getElem_map]
    exact hnodup.getElem_inj_iff.1 hmap
  · exact absurd hname.symm (hlater hy hx hlt)

/-! ## Bases -/

variable {x : ClassId} (hx : h.HasClass x)

include hx

theorem base {r : TypeRef} (hr : r ∈ (h.typeDef x).base) :
    ∃ y, h.resolve? x.module r = some y ∧ h.HasClass y ∧ h.nameOf y = r.name ∧
      (h.typeDef y).kind = .class_ := by
  obtain ⟨u, hu, hkind⟩ := (hlayered.joins _ hx.module).base _ (typeDef_mem hx) r hr
  obtain ⟨y, hy, hclass, rfl⟩ := hlayered.resolve hx.module hu
  refine ⟨y, hy, hclass, ?_, hkind⟩
  cases hu <;> rfl

theorem capability {r : TypeRef} (hr : r ∈ (h.typeDef x).capabilities) :
    ∃ y, h.resolve? x.module r = some y ∧ h.HasClass y ∧ h.nameOf y = r.name ∧
      (h.typeDef y).kind = .capability := by
  obtain ⟨u, hu, hkind⟩ := (hlayered.joins _ hx.module).capabilities _ (typeDef_mem hx) r hr
  obtain ⟨y, hy, hclass, rfl⟩ := hlayered.resolve hx.module hu
  refine ⟨y, hy, hclass, ?_, hkind⟩
  cases hu <;> rfl

theorem super {r : TypeRef} (hr : r ∈ (h.typeDef x).base.toList ++ (h.typeDef x).capabilities) :
    ∃ y, h.resolve? x.module r = some y ∧ h.HasClass y ∧ h.nameOf y = r.name := by
  rcases List.mem_append.1 hr with hr | hr
  · obtain ⟨y, hy, hclass, hname, -⟩ := hlayered.base hx (Option.mem_toList.1 hr)
    exact ⟨y, hy, hclass, hname⟩
  · obtain ⟨y, hy, hclass, hname, -⟩ := hlayered.capability hx hr
    exact ⟨y, hy, hclass, hname⟩

theorem hasClass_of_mem_supers {y : ClassId} (hy : y ∈ h.supers x) : h.HasClass y := by
  obtain ⟨r, hr, hresolve⟩ := List.mem_filterMap.1 hy
  obtain ⟨z, hz, hclass, -⟩ := hlayered.super hx hr
  rw [hz] at hresolve
  exact Option.some.inj hresolve ▸ hclass

theorem hasClass_of_mem_ancestors {y : ClassId} (hy : y ∈ h.ancestors x) : h.HasClass y := by
  have hclosed : ∀ z ∈ h.allClasses, ∀ w ∈ h.base? z, w ∈ h.allClasses := fun z hz w hw =>
    mem_allClasses.2 (hlayered.hasClass_of_mem_supers (mem_allClasses.1 hz)
      (mem_supers_of_base? hw))
  have hstart : ∀ z ∈ some x, z ∈ h.allClasses := fun z hz =>
    Option.some.inj hz ▸ mem_allClasses.2 hx
  exact mem_allClasses.1 (Graph.chain_subset hclosed _ [] hstart hy)

theorem map_base? : (h.base? x).map h.nameOf = (h.typeDef x).base.map (·.name) := by
  rw [base?]
  cases hbase : (h.typeDef x).base with
  | none => rfl
  | some r =>
    obtain ⟨y, hy, -, hname, -⟩ := hlayered.base hx hbase
    rw [Option.bind_some, hy, Option.map_some, Option.map_some, hname]

theorem mem_supers_iff (name : String) : (∃ y ∈ h.supers x, h.nameOf y = name) ↔
    name ∈ ((h.typeDef x).base.toList ++ (h.typeDef x).capabilities).map (·.name) := by
  rw [supers, List.mem_map]
  constructor
  · rintro ⟨y, hy, rfl⟩
    obtain ⟨r, hr, hresolve⟩ := List.mem_filterMap.1 hy
    obtain ⟨z, hz, -, hname⟩ := hlayered.super hx hr
    rw [hz] at hresolve
    exact ⟨r, hr, Option.some.inj hresolve ▸ hname.symm⟩
  · rintro ⟨r, hr, rfl⟩
    obtain ⟨z, hz, -, hname⟩ := hlayered.super hx hr
    exact ⟨z, List.mem_filterMap.2 ⟨r, hr, hz⟩, hname⟩

end Layered

end Hierarchy

end GenLang
