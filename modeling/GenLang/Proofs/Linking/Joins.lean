import GenLang.Proofs.Linking.Classes

/-!
# Modules that join others

A module joins some libraries if its types have names of their own and what they are based on is
declared, in the module or in a library, as a type or a capability where one belongs. A compilation
without errors joins the libraries it refers to, if these stack: each joins those before it.
-/

namespace GenLang

/-- The type that a reference of a module means. -/
inductive Declares (libraries : List Image) (image : Image) : TypeRef → TypeDef → Prop where
  | own {u : TypeDef} (hu : u ∈ image.types) : Declares libraries image ⟨none, u.name⟩ u
  | library {l : Image} {u : TypeDef} (hl : l ∈ libraries) (hu : u ∈ l.types) :
    Declares libraries image ⟨some l.name, u.name⟩ u

structure Joins (libraries : List Image) (image : Image) : Prop where
  nodup : (image.types.map (·.name)).Nodup
  fresh : ∀ t ∈ image.types, ∀ l ∈ libraries, ∀ u ∈ l.types, u.name ≠ t.name
  base : ∀ t ∈ image.types, ∀ r ∈ t.base,
    ∃ u, Declares libraries image r u ∧ u.kind = .class_
  capabilities : ∀ t ∈ image.types, ∀ r ∈ t.capabilities,
    ∃ u, Declares libraries image r u ∧ u.kind = .capability

/-- Libraries each of which joins those before it, under a name of its own. -/
inductive Stack : List Image → Prop where
  | nil : Stack []
  | snoc {libraries : List Image} {image : Image} (h : Stack libraries)
    (hjoins : Joins libraries image) (hname : image.name ∉ libraries.map (·.name)) :
    Stack (libraries ++ [image])

variable {libraries : List Image} {image : Image}

namespace Stack

theorem names_nodup (h : Stack libraries) : (libraries.map (·.name)).Nodup := by
  induction h with
  | nil => exact List.nodup_nil
  | snoc _ _ hname ih =>
    rw [List.map_append, List.nodup_append]
    refine ⟨ih, List.nodup_singleton _, ?_⟩
    rintro a ha _ hb rfl
    rw [List.map_singleton, List.mem_singleton] at hb
    exact hname (hb ▸ ha)

theorem types_nodup (h : Stack libraries) :
    ((Declaration.libraryTypes libraries).map (·.name)).Nodup := by
  induction h with
  | nil => exact List.nodup_nil
  | @snoc libraries image _ hjoins _ ih =>
    have htypes : (Declaration.libraryTypes (libraries ++ [image])).map (·.name) =
        (Declaration.libraryTypes libraries).map (·.name) ++ image.types.map (·.name) := by
      rw [Declaration.libraryTypes, List.flatMap_append, List.flatMap_singleton, List.map_append,
        List.map_map]
      rfl
    rw [htypes, List.nodup_append]
    refine ⟨ih, hjoins.nodup, ?_⟩
    rintro a ha b hb rfl
    obtain ⟨s, hs, hsname⟩ := List.mem_map.1 ha
    obtain ⟨t, ht, htname⟩ := List.mem_map.1 hb
    obtain ⟨l, hl, u, hu, rfl⟩ := Declaration.mem_libraryTypes.1 hs
    exact hjoins.fresh t ht l hl u hu (hsname.trans htname.symm)

theorem take (h : Stack libraries) (n : Nat) : Stack (libraries.take n) := by
  induction h with
  | nil =>
    rw [List.take_nil]
    exact .nil
  | @snoc libraries image hstack hjoins hname ih =>
    by_cases hn : n ≤ libraries.length
    · rwa [List.take_append_of_le_length hn]
    · rw [List.take_of_length_le (by rw [List.length_append, List.length_singleton]; omega)]
      exact hstack.snoc hjoins hname

/-- Each library joins those before it. -/
theorem joins_take (h : Stack libraries) {i : Nat} (hi : i < libraries.length) :
    Joins (libraries.take i) libraries[i] := by
  induction h with
  | nil => exact absurd hi (Nat.not_lt_zero i)
  | @snoc libraries image _ hjoins _ ih =>
    by_cases hlast : i < libraries.length
    · rw [List.take_append_of_le_length (by omega), List.getElem_append_left hlast]
      exact ih hlast
    · rw [List.length_append, List.length_singleton] at hi
      obtain rfl : i = libraries.length := by omega
      rw [List.take_left, List.getElem_append_right (Nat.le_refl _)]
      simpa using hjoins

end Stack

/-! ## Modules made of declarations -/

/-- A module is made of declarations without faults: a table has their symbols behind those of the
libraries, and the types of the module are what they became. -/
structure MadeOf (libraries : List Image) (image : Image) (options : CompileOptions)
    (s : SymbolTable) (ds : List Declaration) : Prop where
  types : s.types = Declaration.libraryTypes libraries ++ ds.map Declaration.symbol
  lowered : List.Forall₂ (Lowered s) ds image.types
  faults : ∀ d ∈ ds, Declaration.faults s options d.decl = []

namespace MadeOf

variable {options : CompileOptions} {s : SymbolTable} {ds : List Declaration}
  (h : MadeOf libraries image options s ds)

include h

theorem declared : List.Forall₂ (Declared s) ds image.types :=
  h.lowered.imp fun _ _ h => h.toDeclared

/-- What the table knows is declared, as what it is known for. -/
theorem declares {t : TypeSymbol} (ht : t ∈ s.types) :
    ∃ u, Declares libraries image t.ref u ∧ u.kind = t.kind := by
  rw [h.types, List.mem_append] at ht
  rcases ht with ht | ht
  · obtain ⟨l, hl, u, hu, rfl⟩ := Declaration.mem_libraryTypes.1 ht
    exact ⟨u, .library hl hu, rfl⟩
  · obtain ⟨d, hd, rfl⟩ := List.mem_map.1 ht
    obtain ⟨u, hu, hdeclared⟩ := Lowering.exists_of_forall₂_left h.declared hd
    have href : d.symbol.ref = ⟨none, u.name⟩ := by
      rw [TypeSymbol.ref, hdeclared.shows.name]
      rfl
    rw [href]
    exact ⟨u, .own hu, hdeclared.shows.kind.symm⟩

theorem joins : Joins libraries image := by
  have hsymbols := s.nodup
  rw [h.types, List.map_append, map_name_of_declared h.declared, List.nodup_append] at hsymbols
  obtain ⟨-, hown, hdisjoint⟩ := hsymbols
  -- bases were looked up in the table, which knows nothing but libraries and declarations
  have hbases {d : Declaration} {t : TypeSymbol} (ht : t ∈ d.bases s) : t ∈ s.types := by
    obtain ⟨b, -, hb⟩ := List.mem_filterMap.1 ht
    exact (SymbolTable.mem_of_find? hb).1
  refine ⟨hown, ?_, ?_, ?_⟩
  · intro t ht l hl u hu
    refine hdisjoint u.name ?_ t.name (List.mem_map_of_mem ht)
    exact List.mem_map.2 ⟨.ofDef u l.name, Declaration.mem_libraryTypes.2 ⟨l, hl, u, hu, rfl⟩, rfl⟩
  · intro t ht r hr
    obtain ⟨d, -, hdeclared⟩ := Lowering.exists_of_forall₂_right h.declared ht
    rw [hdeclared.base] at hr
    obtain ⟨b, hb, rfl⟩ := Option.map_eq_some_iff.1 hr
    obtain ⟨u, hu, hkind⟩ := h.declares (hbases (List.mem_of_find?_eq_some hb))
    refine ⟨u, hu, hkind.trans ?_⟩
    -- the base was picked as the first that is no capability
    have hcapability := List.find?_some hb
    cases hk : b.kind with
    | class_ => rfl
    | capability => simp [TypeSymbol.isCapability, hk] at hcapability
  · intro t ht r hr
    obtain ⟨d, -, hdeclared⟩ := Lowering.exists_of_forall₂_right h.declared ht
    rw [hdeclared.capabilities] at hr
    obtain ⟨b, hb, rfl⟩ := List.mem_map.1 hr
    obtain ⟨hb, hcapability⟩ := List.mem_filter.1 hb
    obtain ⟨u, hu, hkind⟩ := h.declares (hbases hb)
    exact ⟨u, hu, hkind.trans (beq_iff_eq.1 hcapability)⟩

end MadeOf

/-! ## Compilations -/

namespace Compilation

variable {name : String} {units : List SourceUnit} {references : List Image}
  {options : CompileOptions}

/-- A module of a compilation without errors is made of its declarations, if the symbols of its
libraries do not clash. -/
theorem madeOf_of_ok (hok : (ofUnits name units references options).hasErrors = false)
    (hnodup : ((Declaration.libraryTypes references).map (·.name)).Nodup) :
    ∃ ds, MadeOf references (ofUnits name units references options).image options
        (ofUnits name units references options).model.symbols ds ∧
      ∀ d ∈ ds, d ∈ (parseUnits ⟨units⟩ units).1 := by
  obtain ⟨ds, htypes, hlowered, hfaults, hparsed⟩ := declarations_of_ok hok
  rw [Declaration.types_libraryTable hnodup] at htypes
  exact ⟨ds, ⟨htypes, hlowered, hfaults⟩, hparsed⟩

end Compilation

end GenLang
