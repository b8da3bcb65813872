import Mathlib.Data.List.Sort
import GenLang.Proofs.Linking.Cycles

/-!
# Capabilities of a type

Which capabilities a type has is decided by one search along its bases. It finds those of the table
that one or more bases lead to, through cycles and past names that nobody declares, and lists each
of them once in the order of names. Nothing else about how bases are written matters.
-/

namespace GenLang

namespace SymbolTable

variable {s : SymbolTable} {t : TypeSymbol} {name : String}

/-! ## What is found -/

/-- A capability of the table, other than the type itself, that one or more bases lead to. -/
structure HasCapability (s : SymbolTable) (name : String) (t : TypeSymbol) : Prop where
  declared : t ∈ s.types
  isCapability : t.isCapability = true
  other : t.name ≠ name
  reached : Relation.TransGen s.HasBase name t.name

theorem mem_capabilitiesOf_iff_hasCapability :
    t ∈ s.capabilitiesOf name ↔ s.HasCapability name t := by
  rw [mem_capabilitiesOf_iff]
  constructor
  · rintro ⟨ht, hcapability, hne, hreaches⟩
    have hpath := (reaches_iff_of_known (List.mem_map_of_mem ht)).1 hreaches
    -- the path ends at another type than it starts at, so it has an edge
    exact ⟨ht, hcapability, hne,
      (Relation.reflTransGen_iff_eq_or_transGen.1 hpath).resolve_left hne⟩
  · rintro ⟨ht, hcapability, hne, hpath⟩
    exact ⟨ht, hcapability, hne,
      (reaches_iff_of_known (List.mem_map_of_mem ht)).2 hpath.to_reflTransGen⟩

/-! ## In which order -/

/-- Types that are looked up have the names they were looked up by. -/
theorem map_name_sublist (s : SymbolTable) (names : List String) :
    ((names.filterMap s.find?).map (·.name)).Sublist names := by
  induction names with
  | nil => exact List.Sublist.refl _
  | cons n names ih =>
    cases hfind : s.find? n with
    | none =>
      rw [List.filterMap_cons_none hfind]
      exact ih.cons n
    | some t =>
      rw [List.filterMap_cons_some hfind, List.map_cons, (mem_of_find? hfind).2]
      exact ih.cons_cons n

/-- The search sees no name twice, so no two capabilities that it finds share one. -/
theorem nodup_capabilitiesOf (s : SymbolTable) (name : String) :
    ((s.capabilitiesOf name).map (·.name)).Nodup := by
  have hnames := (s.visits_name name).nodup List.nodup_nil
  have hfound := (s.map_name_sublist (s.reachable [name])).nodup hnames
  rw [capabilitiesOf, ((List.mergeSort_perm _ _).map _).nodup_iff]
  exact (List.filter_sublist.map _).nodup hfound

/-- Capabilities are listed in the order of their names, none of them twice. -/
theorem pairwise_capabilitiesOf (s : SymbolTable) (name : String) :
    (s.capabilitiesOf name).Pairwise fun a b => a.name < b.name := by
  have hordered : (s.capabilitiesOf name).Pairwise fun a b => a.name ≤ b.name :=
    pairwise_mergeSort_key TypeSymbol.name _
  have hdistinct := List.pairwise_map.1 (s.nodup_capabilitiesOf name)
  exact hordered.imp₂ (fun _ _ => lt_of_le_of_ne) hdistinct

/-- Capabilities in the order of their names are told by which ones they are. -/
theorem capabilitiesOf_eq_of_mem_iff {ts : List TypeSymbol}
    (hordered : ts.Pairwise fun a b => a.name < b.name)
    (hmem : ∀ t, t ∈ ts ↔ s.HasCapability name t) : s.capabilitiesOf name = ts := by
  have hnodup : ts.Nodup := .of_map TypeSymbol.name (List.pairwise_map.2 (hordered.imp ne_of_lt))
  have hperm : (s.capabilitiesOf name).Perm ts := by
    refine (List.perm_ext_iff_of_nodup (s.nodup_capabilitiesOf name).of_map hnodup).2 fun t => ?_
    rw [mem_capabilitiesOf_iff_hasCapability, hmem]
  exact hperm.eq_of_pairwise (fun _ _ _ _ hab hba => absurd hab (lt_asymm hba))
    (s.pairwise_capabilitiesOf name) hordered

/-! ## Bases written otherwise -/

/-- The same types, of which each has the bases that are given for it. -/
def withBases (s : SymbolTable) (bases : TypeSymbol → List String) : SymbolTable where
  types := s.types.map fun t => { t with bases := bases t }
  nodup := by simpa [List.map_map, Function.comp_def] using s.nodup

theorem map_name_withBases (s : SymbolTable) (bases : TypeSymbol → List String) :
    (s.withBases bases).types.map (·.name) = s.types.map (·.name) := by
  simp [withBases, List.map_map, Function.comp_def]

section

variable {bases : TypeSymbol → List String}
  (hbases : ∀ t ∈ s.types, ∀ base, base ∈ bases t ↔ base ∈ t.bases)

include hbases

theorem hasBase_withBases : (s.withBases bases).HasBase = s.HasBase := by
  funext n base
  apply propext
  rw [HasBase, HasBase, map_name_withBases]
  constructor
  · rintro ⟨_, hu, rfl, hbase, hknown⟩
    obtain ⟨t, ht, rfl⟩ := List.mem_map.1 hu
    exact ⟨t, ht, rfl, (hbases t ht base).1 hbase, hknown⟩
  · rintro ⟨t, ht, rfl, hbase, hknown⟩
    exact ⟨_, List.mem_map_of_mem ht, rfl, (hbases t ht base).2 hbase, hknown⟩

/-- Only which bases a type has decides which capabilities are found, and where they stand. -/
theorem capabilitiesOf_withBases : (s.withBases bases).capabilitiesOf name =
    (s.capabilitiesOf name).map fun t => { t with bases := bases t } := by
  apply capabilitiesOf_eq_of_mem_iff
  · exact List.pairwise_map.2 (s.pairwise_capabilitiesOf name)
  · intro u
    rw [List.mem_map]
    constructor
    · rintro ⟨t, ht, rfl⟩
      obtain ⟨ht, hcapability, hne, hpath⟩ := mem_capabilitiesOf_iff_hasCapability.1 ht
      refine ⟨List.mem_map_of_mem ht, hcapability, hne, ?_⟩
      rwa [hasBase_withBases hbases]
    · rintro ⟨hu, hcapability, hne, hpath⟩
      obtain ⟨t, ht, rfl⟩ := List.mem_map.1 hu
      rw [hasBase_withBases hbases] at hpath
      exact ⟨t, mem_capabilitiesOf_iff_hasCapability.2 ⟨ht, hcapability, hne, hpath⟩, rfl⟩

end

end SymbolTable

/-- The search for the capabilities of a type ends. It gives those of the table that one or more
bases lead to, the type itself apart, in the order of their names and none of them twice, and the
same ones if bases are written in another order. -/
theorem capabilities_collected :
    (∀ (s : SymbolTable) (name : String),
      Graph.Visits s.basesOf [name] [] (s.reachable [name]) ∧
        (∀ t, t ∈ s.capabilitiesOf name ↔ s.HasCapability name t) ∧
        (s.capabilitiesOf name).Pairwise fun a b => a.name < b.name) ∧
      ∀ (s : SymbolTable) (bases : TypeSymbol → List String),
        (∀ t ∈ s.types, (bases t).Perm t.bases) → ∀ name,
          (s.withBases bases).capabilitiesOf name =
            (s.capabilitiesOf name).map fun t => { t with bases := bases t } := by
  refine ⟨fun s name => ?_, fun s bases hperm name => ?_⟩
  · exact ⟨s.visits_name name, fun t => SymbolTable.mem_capabilitiesOf_iff_hasCapability,
      s.pairwise_capabilitiesOf name⟩
  · exact SymbolTable.capabilitiesOf_withBases fun t ht base => (hperm t ht).mem_iff

/-- Two types are based on each other. One of them names a capability twice, which is based on
itself, and a name that nobody declares. -/
def tangledTable : SymbolTable where
  types :=
    [{ (default : TypeSymbol) with name := "Leaf", bases := ["Root", "Zeta", "Ghost", "Zeta"] },
     { (default : TypeSymbol) with name := "Root", bases := ["Alpha", "Leaf"] },
     { (default : TypeSymbol) with name := "Zeta", kind := .capability, bases := ["Alpha", "Zeta"] },
     { (default : TypeSymbol) with name := "Alpha", kind := .capability }]
  nodup := by decide

theorem capabilities_collected_tangled :
    (∀ t ∈ tangledTable.types, t.bases.reverse.Perm t.bases) ∧
      (tangledTable.withBases (·.bases.reverse)).capabilitiesOf "Leaf" =
        (tangledTable.capabilitiesOf "Leaf").map fun t => { t with bases := t.bases.reverse } :=
  have hperm : ∀ t ∈ tangledTable.types, t.bases.reverse.Perm t.bases :=
    fun t _ => t.bases.reverse_perm
  ⟨hperm, capabilities_collected.2 tangledTable (·.bases.reverse) hperm "Leaf"⟩

example : (tangledTable.capabilitiesOf "Leaf").map (·.name) = ["Alpha", "Zeta"] := by cbv

end GenLang
