import GenLang.Proofs.Linking.Hierarchies

/-!
# Tables with more types

A table agrees with another one if it tells the same of the types that the other one knows. What is
declared without faults there has none here.

A table is closed if it has every base that its types name. Nothing that is looked up in a closed
table changes when types are added behind those it has: bases lead from its types to its types only.
-/

namespace GenLang

namespace SymbolTable

variable {s s' : SymbolTable} {t : TypeSymbol} {name : String}

/-- What a table tells of its types another table tells as well. -/
structure Agrees (s s' : SymbolTable) : Prop where
  find?_eq_some : ∀ {name t}, s.find? name = some t → s'.find? name = some t
  ancestors_eq : ∀ {name}, name ∈ s.types.map (·.name) → s'.ancestors name = s.ancestors name
  inCycle_eq : ∀ {t}, t ∈ s.types → s'.inCycle t.name = s.inCycle t.name
  capabilitiesOf : ∀ {name t}, name ∈ s.types.map (·.name) → t ∈ s'.capabilitiesOf name →
    t ∈ s.capabilitiesOf name

namespace Agrees

variable (h : s.Agrees s')

include h

theorem find?_eq (hname : name ∈ s.types.map (·.name)) : s'.find? name = s.find? name := by
  obtain ⟨t, ht, rfl⟩ := List.mem_map.1 hname
  rw [find?_of_mem ht]
  exact h.find?_eq_some (find?_of_mem ht)

theorem member?_eq (hname : name ∈ s.types.map (·.name)) (member : String) :
    s'.member? name member = s.member? name member := by
  rw [member?, h.ancestors_eq hname, ← member?]

theorem method?_eq (hname : name ∈ s.types.map (·.name)) (method : String) :
    s'.method? name method = s.method? name method := by
  rw [method?, h.ancestors_eq hname, ← method?]

theorem constructor?_eq (hname : name ∈ s.types.map (·.name)) :
    s'.constructor? name = s.constructor? name := by
  rw [constructor?, h.method?_eq hname, ← constructor?]

theorem isKnownTypeName (hname : s.isKnownTypeName name) : s'.isKnownTypeName name := by
  rw [SymbolTable.isKnownTypeName, Bool.or_eq_true] at hname ⊢
  refine hname.imp_right fun hfind => ?_
  obtain ⟨t, ht⟩ := Option.isSome_iff_exists.1 hfind
  rw [h.find?_eq_some ht, Option.isSome_some]

end Agrees

/-- Every base that a type names is in the table as well. -/
def Closed (s : SymbolTable) : Prop :=
  ∀ t ∈ s.types, ∀ b ∈ t.bases, b ∈ s.types.map (·.name)

/-- A closed table, and a table with the same types in front. -/
structure Extends (s s' : SymbolTable) : Prop where
  closed : s.Closed
  types : s.types <+: s'.types

theorem Closed.basesOf (h : s.Closed) (name : String) :
    ∀ b ∈ s.basesOf name, b ∈ s.types.map (·.name) := by
  unfold SymbolTable.basesOf
  split
  · next t hfind => exact h t (mem_of_find? hfind).1
  · exact fun _ hb => absurd hb List.not_mem_nil

namespace Extends

variable (h : s.Extends s')

include h

theorem find?_eq_some (hfind : s.find? name = some t) : s'.find? name = some t :=
  h.types.find?_eq_some hfind

theorem find?_eq (hname : name ∈ s.types.map (·.name)) : s'.find? name = s.find? name := by
  obtain ⟨t, ht, rfl⟩ := List.mem_map.1 hname
  rw [find?_of_mem ht]
  exact h.find?_eq_some (find?_of_mem ht)

theorem basesOf_eq (hname : name ∈ s.types.map (·.name)) : s'.basesOf name = s.basesOf name := by
  rw [SymbolTable.basesOf, h.find?_eq hname, SymbolTable.basesOf]

theorem filterMap_find?_eq {names : List String} (hnames : ∀ n ∈ names, n ∈ s.types.map (·.name)) :
    names.filterMap s'.find? = names.filterMap s.find? :=
  List.filterMap_congr fun n hn => h.find?_eq (hnames n hn)

theorem base?_eq (hname : name ∈ s.types.map (·.name)) : s'.base? name = s.base? name := by
  rw [base?, h.basesOf_eq hname, h.filterMap_find?_eq (h.closed.basesOf name), ← base?]

/-! ## Along base types -/

theorem ancestors_eq (hname : name ∈ s.types.map (·.name)) :
    s'.ancestors name = s.ancestors name := by
  -- the chain of base types stays among the types of the table
  have hnext : ∀ n ∈ s.types.map (·.name), ∀ b ∈ (s.base? n).map (·.name),
      b ∈ s.types.map (·.name) := by
    intro n _ b hb
    obtain ⟨u, hu, rfl⟩ := Option.map_eq_some_iff.1 hb
    obtain ⟨m, -, hm⟩ := List.mem_filterMap.1 (List.mem_of_find?_eq_some hu)
    exact List.mem_map_of_mem (mem_of_find? hm).1
  have hstart : ∀ n ∈ (s.find? name).map (·.name), n ∈ s.types.map (·.name) := by
    intro n hn
    obtain ⟨u, hu, rfl⟩ := Option.map_eq_some_iff.1 hn
    exact List.mem_map_of_mem (mem_of_find? hu).1
  have hbound : Graph.chain (fun n => (s.base? n).map (·.name)) s'.types.length []
      ((s.find? name).map (·.name)) = Graph.chain (fun n => (s.base? n).map (·.name))
        s.types.length [] ((s.find? name).map (·.name)) :=
    Graph.chain_of_le hnext hstart (by simpa using h.types.length_le) (by simp)
  have hchain : Graph.chain (fun n => (s'.base? n).map (·.name)) s'.types.length []
      ((s.find? name).map (·.name)) = Graph.chain (fun n => (s.base? n).map (·.name))
        s'.types.length [] ((s.find? name).map (·.name)) := by
    have hbase : ∀ n, n ∈ s.types.map (·.name) → (s'.base? (id n)).map (·.name) =
        ((s.base? n).map (·.name)).map id := by
      intro n hn
      rw [id_eq, h.base?_eq hn, Option.map_id_fun, id_eq]
    have hseen : ∀ n ∈ ([] : List String), n ∈ s.types.map (·.name) :=
      fun _ hn => absurd hn List.not_mem_nil
    have hinj : ∀ m n : String, m ∈ s.types.map (·.name) → n ∈ s.types.map (·.name) →
        id m = id n → m = n :=
      fun _ _ _ _ heq => heq
    have hsame : Graph.chain (fun n => (s'.base? n).map (·.name)) s'.types.length
        (([] : List String).map id) (((s.find? name).map (·.name)).map id) =
          (Graph.chain (fun n => (s.base? n).map (·.name)) s'.types.length []
            ((s.find? name).map (·.name))).map id :=
      Graph.chain_map hinj hnext hbase s'.types.length hseen hstart
    rwa [List.map_nil, List.map_id, Option.map_id_fun, id_eq] at hsame
  have hsub := Graph.chain_subset hnext s.types.length [] hstart
  rw [ancestors, h.find?_eq hname, hchain, hbound, h.filterMap_find?_eq fun n hn => hsub hn,
    ← ancestors]

/-! ## Along all bases -/

theorem reaches_iff (hname : name ∈ s.types.map (·.name)) {other : String} :
    Graph.Reaches s'.basesOf name other ↔
      Graph.Reaches s.basesOf name other ∧ other ∈ s.types.map (·.name) := by
  have hedges : ∀ n, n ∈ s.types.map (·.name) → ∀ b,
      b ∈ s'.basesOf (id n) ↔ ∃ d ∈ s.basesOf n, id d = b := by
    intro n hn b
    rw [id_eq, h.basesOf_eq hn]
    simp
  have hsame := Graph.reaches_map_iff (f := id) (D := (· ∈ s.types.map (·.name)))
    (fun n _ => h.closed.basesOf n) hedges hname (x := other)
  rw [id_eq] at hsame
  rw [hsame]
  constructor
  · rintro ⟨d, hreaches, hd, rfl⟩
    exact ⟨hreaches, hd⟩
  · exact fun ⟨hreaches, hd⟩ => ⟨other, hreaches, hd, rfl⟩

theorem inCycle_eq (ht : t ∈ s.types) : s'.inCycle t.name = s.inCycle t.name := by
  have hname : t.name ∈ s.types.map (·.name) := List.mem_map_of_mem ht
  rw [Bool.eq_iff_iff, inCycle_iff, inCycle_iff, h.basesOf_eq hname]
  refine exists_congr fun b => and_congr_right fun hb => ?_
  rw [h.reaches_iff (h.closed.basesOf t.name b hb), and_iff_left hname]

/-- The larger table knows no capability of a type that the table does not know. -/
theorem mem_of_mem_capabilitiesOf (hname : name ∈ s.types.map (·.name))
    (ht : t ∈ s'.capabilitiesOf name) : t ∈ s.capabilitiesOf name := by
  obtain ⟨ht, hcapability, hne, hreaches⟩ := mem_capabilitiesOf_iff.1 ht
  obtain ⟨hreaches, hknown⟩ := (h.reaches_iff hname).1 hreaches
  have hfind := find?_of_mem ht
  rw [h.find?_eq hknown] at hfind
  exact mem_capabilitiesOf_iff.2 ⟨(mem_of_find? hfind).1, hcapability, hne, hreaches⟩

/-- A closed table is agreed with by every one that has more types. -/
theorem agrees : s.Agrees s' :=
  ⟨h.find?_eq_some, h.ancestors_eq, h.inCycle_eq, h.mem_of_mem_capabilitiesOf⟩

end Extends

end SymbolTable

/-! ## Declarations without faults -/

namespace Declaration

variable {s s' : SymbolTable} {options options' : CompileOptions} {decl : TypeDecl}

theorem baseFaults_of_agrees (h : s.Agrees s') {first : Option String} {bs : List Ident}
    (hfaults : baseFaults s decl first bs = []) : baseFaults s' decl first bs = [] := by
  fun_induction baseFaults s decl first bs
  case case1 => rfl
  case case2 | case4 | case5 => cases hfaults
  case case3 first b bs t hfind hcapability ih =>
    unfold baseFaults
    simp only [h.find?_eq_some hfind, hcapability, if_true]
    exact ih hfaults
  case case6 b bs t hfind hclass hkind ih =>
    unfold baseFaults
    simp only [h.find?_eq_some hfind, hclass, hkind]
    exact ih hfaults

theorem methodFaults_of_agrees (h : s.Agrees s')
    (hnative : options.allowNative → options'.allowNative) {m : MethodDecl}
    (hfaults : methodFaults s decl options m = []) :
    methodFaults s' decl options' m = [] := by
  simp only [methodFaults, List.append_eq_nil_iff, List.map_eq_nil_iff, List.filter_eq_nil_iff]
    at hfaults ⊢
  obtain ⟨⟨hbefore, hbody⟩, hnames⟩ := hfaults
  refine ⟨⟨?_, hbody⟩, fun a ha hunknown => hnames a ha ?_⟩
  · cases hm : m.isNative with
    | false => rfl
    | true =>
      rw [hm] at hbefore
      cases hallow : options.allowNative with
      | false =>
        rw [hallow] at hbefore
        cases hbefore
      | true => rw [hnative hallow]; rfl
  · simp only [Bool.not_eq_true', Bool.or_eq_false_iff] at hunknown ⊢
    refine ⟨hunknown.1, Bool.eq_false_iff.2 fun hname => ?_⟩
    rw [h.isKnownTypeName hname] at hunknown
    cases hunknown.2

theorem capabilityFaults_of_agrees (h : s.Agrees s')
    (hname : decl.name.name ∈ s.types.map (·.name)) (hfaults : capabilityFaults s decl = []) :
    capabilityFaults s' decl = [] := by
  simp only [capabilityFaults, List.flatMap_eq_nil_iff, List.map_eq_nil_iff] at hfaults ⊢
  intro t ht
  have himplemented (m : MethodSymbol) : isImplemented s' decl.name.name m =
      isImplemented s decl.name.name m := by
    rw [isImplemented, isImplemented, h.method?_eq hname]
  simp only [himplemented]
  exact hfaults t (h.capabilitiesOf hname ht)

/-- A declaration that has no faults has none where the same is known. -/
theorem faults_of_agrees (h : s.Agrees s') {d : Declaration} (hd : d.symbol ∈ s.types)
    (hnative : options.allowNative → options'.allowNative)
    (hfaults : faults s options d.decl = []) : faults s' options' d.decl = [] := by
  have hname : d.decl.name.name ∈ s.types.map (·.name) :=
    List.mem_map.2 ⟨d.symbol, hd, rfl⟩
  have hcycle : s'.inCycle d.decl.name.name = s.inCycle d.decl.name.name := h.inCycle_eq hd
  simp only [faults, List.append_eq_nil_iff, List.flatMap_eq_nil_iff] at hfaults ⊢
  obtain ⟨⟨⟨⟨hmembers, hbases⟩, hcycles⟩, hmethods⟩, hcapabilities⟩ := hfaults
  refine ⟨⟨⟨⟨hmembers, baseFaults_of_agrees h hbases⟩, ?_⟩, ?_⟩, ?_⟩
  · rwa [hcycle]
  · exact fun m hm => methodFaults_of_agrees h hnative (hmethods m hm)
  · split
    · next hconcrete =>
      rw [if_pos hconcrete] at hcapabilities
      exact capabilityFaults_of_agrees h hname hcapabilities
    · rfl

end Declaration

/-! ## Closed tables -/

/-- The types of libraries that stack are based on types of these libraries. -/
theorem Stack.closed {libraries : List Image} (h : Stack libraries) :
    (Declaration.libraryTable libraries).Closed := by
  have htypes := Declaration.types_libraryTable h.types_nodup
  intro t ht b hb
  rw [htypes] at ht ⊢
  obtain ⟨l, hl, d, hd, rfl⟩ := Declaration.mem_libraryTypes.1 ht
  obtain ⟨i, hi, rfl⟩ := List.getElem_of_mem hl
  have hjoins := h.joins_take hi
  obtain ⟨r, hr, rfl⟩ := List.mem_map.1 hb
  have hdeclared : ∃ u, Declares (libraries.take i) libraries[i] r u := by
    rcases List.mem_append.1 hr with hr | hr
    · exact (hjoins.base d hd r (Option.mem_toList.1 hr)).imp fun _ hu => hu.1
    · exact (hjoins.capabilities d hd r hr).imp fun _ hu => hu.1
  obtain ⟨u, hu⟩ := hdeclared
  refine List.mem_map.2 ?_
  cases hu with
  | own hu => exact ⟨_, Declaration.mem_libraryTypes.2 ⟨_, hl, _, hu, rfl⟩, rfl⟩
  | library hother hu =>
    exact ⟨_, Declaration.mem_libraryTypes.2 ⟨_, List.mem_of_mem_take hother, _, hu, rfl⟩, rfl⟩

/-- A resolved set of libraries is closed. -/
theorem References.closed_of_resolve {sources : List LibrarySource} {patience left : Patience}
    {references : References} (h : resolve sources patience = .ok (references, left))
    (hwritable : Writable sources references) : (Declaration.libraryTable references).Closed :=
  (stack_of_resolve h hwritable).closed

/-- Declarations without faults leave a table closed. -/
theorem SymbolTable.closed_of_no_faults {s libraries : SymbolTable} {options : CompileOptions}
    {ds : List Declaration} (hlibraries : libraries.Closed)
    (htypes : s.types = libraries.types ++ ds.map Declaration.symbol)
    (hfaults : ∀ d ∈ ds, Declaration.faults s options d.decl = []) : s.Closed := by
  intro t ht b hb
  rw [htypes] at ht
  rcases List.mem_append.1 ht with ht | ht
  · rw [htypes, List.map_append]
    exact List.mem_append_left _ (hlibraries t ht b hb)
  · obtain ⟨d, hd, rfl⟩ := List.mem_map.1 ht
    obtain ⟨i, hi, rfl⟩ := List.mem_map.1 hb
    have hbases := Declaration.baseFaults_of_no_faults (hfaults d hd)
    obtain ⟨u, hu⟩ := (Declaration.bases_of_no_faults hbases).1 i hi
    obtain ⟨hmem, hname⟩ := mem_of_find? hu
    exact List.mem_map.2 ⟨u, hmem, hname⟩

end GenLang
