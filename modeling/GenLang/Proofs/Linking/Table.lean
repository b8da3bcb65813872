import Mathlib.Data.List.Nodup
import GenLang.Declaration

/-!
# Tables of symbols

A table finds what the list of all types it was offered holds first under a name. Where no two of
these types share a name, nothing is refused and the table is that list.
-/

namespace GenLang

/-! ## Keys -/

/-- What is listed under a key that it shares with nothing else is found under it. -/
theorem find?_of_nodup {α : Type} {key : α → String} {as : List α} (hnodup : (as.map key).Nodup)
    {a : α} (ha : a ∈ as) : as.find? (key · == key a) = some a := by
  cases hfind : as.find? (key · == key a) with
  | none => exact absurd (List.find?_eq_none.1 hfind a ha) (by simp)
  | some b =>
    have hkey : key b = key a := by simpa using List.find?_some hfind
    rw [List.inj_on_of_nodup_map hnodup (List.mem_of_find?_eq_some hfind) ha hkey]

section

variable {α : Type} (key : α → String)

/-- A sort by a key leaves two items as they are unless the second has the smaller key. -/
theorem before_iff {a b : α} : (!decide (key b < key a)) = true ↔ key a ≤ key b := by
  rw [Bool.not_eq_true', decide_eq_false_iff_not, String.not_lt]

theorem before_trans (a b c : α) (hab : (!decide (key b < key a)) = true)
    (hbc : (!decide (key c < key b)) = true) : (!decide (key c < key a)) = true :=
  (before_iff key).2 (String.le_trans ((before_iff key).1 hab) ((before_iff key).1 hbc))

theorem before_total (a b : α) :
    (!decide (key b < key a) || !decide (key a < key b)) = true := by
  rw [Bool.or_eq_true, before_iff, before_iff]
  exact String.le_total (key a) (key b)

/-- What is sorted by a key is in the order of the key. -/
theorem pairwise_mergeSort_key (as : List α) :
    (as.mergeSort fun a b => !decide (key b < key a)).Pairwise fun a b => key a ≤ key b :=
  (List.pairwise_mergeSort (before_trans key) (before_total key) as).imp (before_iff key).1

end

/-! ## Look-up and insertion -/

namespace SymbolTable

variable {s : SymbolTable} {t u : TypeSymbol} {name : String}

theorem mem_of_find? (h : s.find? name = some t) : t ∈ s.types ∧ t.name = name :=
  ⟨List.mem_of_find?_eq_some h, by simpa using List.find?_some h⟩

theorem find?_of_mem (h : t ∈ s.types) : s.find? t.name = some t :=
  find?_of_nodup s.nodup h

theorem insert_ok {s' : SymbolTable} (h : s.insert t = .ok s') :
    s.find? t.name = none ∧ s'.types = s.types ++ [t] := by
  unfold insert at h
  split at h
  · cases h
  · next hnone =>
    cases h
    exact ⟨hnone, rfl⟩

theorem insert_error (h : s.insert t = .error u) : s.find? t.name = some u := by
  unfold insert at h
  split at h
  · next hsome =>
    cases h
    exact hsome
  · cases h

/-- With one more type, unless its name is taken. -/
def adopt (s : SymbolTable) (t : TypeSymbol) : SymbolTable :=
  match s.insert t with
  | .ok s => s
  | .error _ => s

theorem find?_adopt (s : SymbolTable) (t : TypeSymbol) (name : String) :
    (s.adopt t).find? name = (s.types ++ [t]).find? (·.name == name) := by
  rw [adopt]
  split
  · next s' h => rw [find?, (insert_ok h).2]
  · next u h =>
    -- The type that is refused is not the first of its name.
    have hfind := insert_error h
    rw [List.find?_append, ← find?]
    cases hname : s.find? name with
    | some v => rfl
    | none =>
      have hne : t.name ≠ name := by
        rintro rfl
        rw [hname] at hfind
        cases hfind
      simp [hne]

theorem find?_foldl_adopt (ts : List TypeSymbol) (s : SymbolTable) (name : String) :
    (ts.foldl adopt s).find? name = (s.types ++ ts).find? (·.name == name) := by
  induction ts generalizing s with
  | nil => rw [List.foldl_nil, List.append_nil, find?]
  | cons t ts ih =>
    rw [List.foldl_cons, ih, List.find?_append, ← find?, find?_adopt, ← List.find?_append,
      List.append_assoc, List.singleton_append]

theorem types_foldl_adopt {ts : List TypeSymbol} {s : SymbolTable}
    (h : ((s.types ++ ts).map (·.name)).Nodup) : (ts.foldl adopt s).types = s.types ++ ts := by
  induction ts generalizing s with
  | nil => rw [List.foldl_nil, List.append_nil]
  | cons t ts ih =>
    have hadopt : (s.adopt t).types = s.types ++ [t] := by
      rw [adopt]
      split
      · next h => exact (insert_ok h).2
      · next u hu =>
        obtain ⟨hmem, hname⟩ := mem_of_find? (insert_error hu)
        rw [List.map_append, List.map_cons, List.nodup_append] at h
        exact absurd hname (h.2.2 u.name (List.mem_map_of_mem hmem) t.name List.mem_cons_self)
    have hassoc : (s.adopt t).types ++ ts = s.types ++ t :: ts := by
      rw [hadopt, List.append_assoc, List.singleton_append]
    rw [List.foldl_cons, ih (by rwa [hassoc]), hassoc]

end SymbolTable

namespace Declaration

open SymbolTable

/-- The types of libraries, one library after the other. -/
def libraryTypes (libraries : List Image) : List TypeSymbol :=
  libraries.flatMap fun library => library.types.map (TypeSymbol.ofDef · library.name)

theorem libraryTable_eq_foldl (libraries : List Image) :
    libraryTable libraries = (libraryTypes libraries).foldl adopt .empty := by
  rw [libraryTypes, List.foldl_flatMap, libraryTable]
  refine congrArg (List.foldl · _ _) (funext fun table => funext fun library => ?_)
  rw [List.foldl_map]
  rfl

theorem find?_libraryTable (libraries : List Image) (name : String) :
    (libraryTable libraries).find? name = (libraryTypes libraries).find? (·.name == name) := by
  rw [libraryTable_eq_foldl, find?_foldl_adopt]
  rfl

theorem types_libraryTable {libraries : List Image}
    (h : ((libraryTypes libraries).map (·.name)).Nodup) :
    (libraryTable libraries).types = libraryTypes libraries := by
  rw [libraryTable_eq_foldl]
  exact types_foldl_adopt (s := .empty) h

theorem mem_libraryTypes {libraries : List Image} {t : TypeSymbol} :
    t ∈ libraryTypes libraries ↔ ∃ l ∈ libraries, ∃ d ∈ l.types, TypeSymbol.ofDef d l.name = t := by
  simp [libraryTypes]

section

variable (sources : Sources)

/-- Declarations are added behind what there is. -/
theorem types_enter (table : SymbolTable) (ds : List Declaration) :
    (enter sources table ds).1.types =
      table.types ++ (enter sources table ds).2.1.map symbol := by
  fun_induction enter sources table ds with
  | case1 => simp
  | case2 table d ds table' h table'' accepted diagnostics hrest ih =>
    rw [hrest] at ih
    simp only at ih ⊢
    rw [ih, (insert_ok h).2, List.append_assoc, List.singleton_append, List.map_cons]
  | case3 table d ds other h table' accepted diagnostics hrest ih =>
    rw [hrest] at ih
    exact ih

theorem accepted_sublist (table : SymbolTable) (ds : List Declaration) :
    (enter sources table ds).2.1.Sublist ds := by
  fun_induction enter sources table ds with
  | case1 => exact List.Sublist.refl _
  | case2 table d ds table' h table'' accepted diagnostics hrest ih =>
    rw [hrest] at ih
    exact ih.cons_cons d
  | case3 table d ds other h table' accepted diagnostics hrest ih =>
    rw [hrest] at ih
    exact ih.cons d

variable {sources} {table : SymbolTable} {ds : List Declaration} {d : Declaration}

/-- A declaration that was entered is found under its name. -/
theorem find?_enter (h : d ∈ (enter sources table ds).2.1) :
    (enter sources table ds).1.find? d.decl.name.name = some d.symbol := by
  have hmem : d.symbol ∈ (enter sources table ds).1.types := by
    rw [types_enter]
    exact List.mem_append_right _ (List.mem_map_of_mem h)
  exact find?_of_mem hmem

end

end Declaration

end GenLang
