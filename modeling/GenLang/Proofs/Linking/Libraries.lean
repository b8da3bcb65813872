import GenLang.Proofs.Image.Reading
import GenLang.Proofs.Linking.Joins
import GenLang.Reference

/-!
# Resolved libraries stack

A resolved set of libraries holds each library once, as its image was read back after it had been
compiled, without errors, against the libraries before it.
-/

namespace GenLang

theorem bind_eq_ok {ε α β : Type} {x : Except ε α} {f : α → Except ε β} {b : β}
    (h : x >>= f = .ok b) : ∃ a, x = .ok a ∧ f a = .ok b := by
  cases x with
  | ok a => exact ⟨a, rfl, h⟩
  | error e => cases h

theorem mapError_eq_ok {ε ε' α : Type} {x : Except ε α} {f : ε → ε'} {a : α}
    (h : x.mapError f = .ok a) : x = .ok a := by
  cases x <;> cases h
  rfl

theorem map_eq_ok {ε α β : Type} {x : Except ε α} {f : α → β} {b : β} (h : x.map f = .ok b) :
    ∃ a, x = .ok a ∧ f a = b := by
  cases x with
  | ok a => exact ⟨a, rfl, Except.ok.inj h⟩
  | error e => cases h

namespace Compilation

variable {name : String} {units : List SourceUnit} {references : References}
  {options : CompileOptions} {patience left : Patience} {c : Compilation}

theorem create_never (name : String) (units : List SourceUnit) (references : References)
    (options : CompileOptions) :
    create name units references options none =
      .ok (ofUnits name units references options, none) := by
  rw [create, Patience.checks_none]
  show (Patience.checks _ none >>= _) = _
  rw [Patience.checks_none]
  rfl

/-- Whoever waits for a compilation long enough gets the one. -/
theorem eq_ofUnits_of_create (h : create name units references options patience = .ok (c, left)) :
    c = ofUnits name units references options := by
  obtain ⟨between, -, h⟩ := bind_eq_ok h
  obtain ⟨last, -, h⟩ := bind_eq_ok h
  cases h
  rfl

end Compilation

namespace References

/-! ## Names -/

theorem nodup_eraseDups {α : Type} [DecidableEq α] (names : List α) :
    names.eraseDups.Nodup := by
  induction hn : names.length using Nat.strong_induction_on generalizing names with
  | h n ih =>
    cases names with
    | nil => exact List.nodup_nil
    | cons a names =>
      rw [List.eraseDups_cons, List.nodup_cons]
      constructor
      · intro ha
        rw [List.mem_eraseDups, List.mem_filter] at ha
        simp at ha
      · have hlength := List.length_filter_le (fun b => !b == a) names
        rw [List.length_cons] at hn
        exact ih _ (by omega) _ rfl

theorem enumerate_cons_ok {seen : List String} {source : LibrarySource}
    {rest : List LibrarySource} {libraries : List (LibrarySource × String)}
    (h : enumerate seen (source :: rest) = .ok libraries) :
    ∃ names others, source.names = .ok names ∧
      enumerate (seen ++ (names.filter (!seen.contains ·)).eraseDups) rest = .ok others ∧
      libraries = (names.filter (!seen.contains ·)).eraseDups.map (source, ·) ++ others := by
  unfold enumerate at h
  obtain ⟨names, hnames, h⟩ := bind_eq_ok h
  obtain ⟨others, hothers, h⟩ := bind_eq_ok h
  cases h
  exact ⟨names, others, hnames, hothers, rfl⟩

/-- Libraries come in the order in which they are listed first, without those that were seen. -/
theorem names_enumerate {seen : List String} {sources : List LibrarySource}
    {libraries : List (LibrarySource × String)} (h : enumerate seen sources = .ok libraries) :
    ∃ lists : List (List String), sources.map (·.names) = lists.map .ok ∧
      libraries.map (·.2) = (lists.flatten.filter (!seen.contains ·)).eraseDups := by
  induction sources generalizing seen libraries with
  | nil =>
    cases h
    exact ⟨[], rfl, rfl⟩
  | cons source rest ih =>
    obtain ⟨names, others, hnames, hothers, rfl⟩ := enumerate_cons_ok h
    obtain ⟨lists, hlists, hnext⟩ := ih hothers
    refine ⟨names :: lists, by rw [List.map_cons, hnames, hlists, List.map_cons], ?_⟩
    -- a source gives its names that are new, each once
    have hfresh : ((names.filter (!seen.contains ·)).eraseDups.map (source, ·)).map (·.2) =
        (names.filter (!seen.contains ·)).eraseDups := by
      rw [List.map_map]
      exact List.map_id _
    rw [List.map_append, hfresh, hnext, List.flatten_cons, List.filter_append,
      List.eraseDups_append, List.removeAll, List.filter_filter]
    congr 2
    -- New is what no earlier source had: what was seen before, and what this source adds.
    refine List.filter_congr fun name _ => ?_
    rw [Bool.eq_iff_iff]
    simp only [List.elem_eq_contains, List.contains_eq_mem, Bool.and_eq_true, Bool.not_eq_true',
      decide_eq_false_iff_not, List.mem_append, List.mem_eraseDups, List.mem_filter]
    tauto

/-- No library is listed twice, and none that was seen. -/
theorem nodup_enumerate {seen : List String} {sources : List LibrarySource}
    {libraries : List (LibrarySource × String)} (h : enumerate seen sources = .ok libraries) :
    (libraries.map (·.2)).Nodup ∧ ∀ name ∈ libraries.map (·.2), name ∉ seen := by
  obtain ⟨lists, -, hnames⟩ := names_enumerate h
  rw [hnames]
  refine ⟨nodup_eraseDups _, fun name hname => ?_⟩
  rw [List.mem_eraseDups, List.mem_filter] at hname
  simpa using hname.2

/-! ## Compiling one after the other -/

/-- The libraries of a set are within the limits of the format that they are written in. -/
def Writable (sources : List LibrarySource) (references : References) : Prop :=
  ∀ libraries, enumerate [] sources = .ok libraries → ∀ listed ∈ libraries,
    ∀ text, fetch listed.1 listed.2 = .ok text → ∀ before, before <+: references →
      (Compilation.ofUnits listed.2 [⟨listed.2 ++ ".gen", text⟩] before
        .referenceLibrary).image.toPack.isWritable

theorem writable_of_all {sources : List LibrarySource} {references : References}
    (h : (enumerate [] sources).toOption.any fun libraries =>
      libraries.all fun listed => references.inits.all fun before =>
        (fetch listed.1 listed.2).toOption.all fun text =>
          (Compilation.ofUnits listed.2 [⟨listed.2 ++ ".gen", text⟩] before
            .referenceLibrary).image.toPack.isWritable) : Writable sources references := by
  intro libraries hlibraries listed hlisted text htext before hbefore
  simp only [hlibraries, Except.toOption, Option.any_some, List.all_eq_true] at h
  have hall := h listed hlisted before ((List.mem_inits _ _).2 hbefore)
  simpa only [htext, Option.all_some] using hall

/-- A library of some sources, as it is compiled against those before it. -/
def library (before : References) (name text : String) : Compilation :=
  .ofUnits name [⟨name ++ ".gen", text⟩] before .referenceLibrary

theorem readBack_ok {name : String} {c : Compilation} {image : Image}
    (h : readBack name c = .ok image) :
    c.hasErrors = false ∧ Image.decode c.image.encode = .ok image := by
  unfold readBack at h
  split at h
  · cases h
  · rename_i hok
    obtain ⟨bytes, hbytes, h⟩ := bind_eq_ok h
    have hemit := mapError_eq_ok hbytes
    unfold Compilation.emit at hemit
    split at hemit <;> cases hemit
    exact ⟨by simpa using hok, mapError_eq_ok h⟩

theorem compileLibrary_ok {references : References} {name text : String} {image : Image}
    {patience left : Patience}
    (h : compileLibrary references name text patience = .ok (image, left)) :
    readBack name (library references name text) = .ok image := by
  obtain ⟨⟨c, between⟩, hcreate, h⟩ := bind_eq_ok h
  obtain ⟨read, hread, h⟩ := bind_eq_ok h
  cases h
  rwa [Compilation.eq_ofUnits_of_create (mapError_eq_ok hcreate)] at hread

theorem compileLibrary_never {references : References} {name text : String} {image : Image}
    (h : readBack name (library references name text) = .ok image) :
    compileLibrary references name text none = .ok (image, none) := by
  unfold compileLibrary
  rw [Compilation.create_never]
  show (readBack name (library references name text) >>= _) = _
  rw [h]
  rfl

/-- A library is listed in front of others. It is not cancelled while its turn is, and the others
have what patience is left. -/
theorem extend_cons_ok {patience left : Patience} {references all : References}
    {listed : LibrarySource × String} {rest : List (LibrarySource × String)}
    (h : extend references (listed :: rest) patience = .ok (all, left)) :
    ∃ text image between, fetch listed.1 listed.2 = .ok text ∧
      readBack listed.2 (library references listed.2 text) = .ok image ∧
      extend (references ++ [image]) rest between = .ok (all, left) := by
  obtain ⟨source, name⟩ := listed
  unfold extend at h
  obtain ⟨waiting, -, h⟩ := bind_eq_ok h
  obtain ⟨text, htext, h⟩ := bind_eq_ok h
  obtain ⟨⟨image, between⟩, himage, h⟩ := bind_eq_ok h
  exact ⟨text, image, between, mapError_eq_ok htext, compileLibrary_ok himage, h⟩

/-- What is resolved does not depend on how long is waited for it, as long as it is waited for. -/
theorem extend_never {patience left : Patience} {references all : References}
    {libraries : List (LibrarySource × String)}
    (h : extend references libraries patience = .ok (all, left)) :
    extend references libraries none = .ok (all, none) := by
  induction libraries generalizing references patience with
  | nil =>
    cases h
    rfl
  | cons listed rest ih =>
    obtain ⟨text, image, between, htext, himage, h⟩ := extend_cons_ok h
    unfold extend
    simp only [Patience.check_none, htext, compileLibrary_never himage, Except.mapError, bind,
      Except.bind]
    exact ih h

theorem resolve_never {sources : List LibrarySource} {patience left : Patience}
    {references : References} (h : resolve sources patience = .ok (references, left)) :
    resolve sources none = .ok (references, none) := by
  obtain ⟨libraries, hlibraries, hextend⟩ := bind_eq_ok h
  unfold resolve
  rw [hlibraries]
  exact extend_never hextend

theorem prefix_of_extend {patience left : Patience} {references all : References}
    {libraries : List (LibrarySource × String)}
    (h : extend references libraries patience = .ok (all, left)) : references <+: all := by
  induction libraries generalizing references patience with
  | nil =>
    cases h
    exact List.prefix_refl _
  | cons listed rest ih =>
    obtain ⟨text, image, between, -, -, h⟩ := extend_cons_ok h
    exact (List.prefix_append _ _).trans (ih h)

theorem stack_of_extend {patience left : Patience} {references all : References}
    {libraries : List (LibrarySource × String)}
    (h : extend references libraries patience = .ok (all, left)) (hstack : Stack references)
    (hnodup : (libraries.map (·.2)).Nodup) (hnew : ∀ listed ∈ libraries,
      listed.2 ∉ references.names)
    (hwritable : ∀ listed ∈ libraries, ∀ text, fetch listed.1 listed.2 = .ok text →
      ∀ before, before <+: all → (Compilation.ofUnits listed.2 [⟨listed.2 ++ ".gen", text⟩]
        before .referenceLibrary).image.toPack.isWritable) :
    Stack all := by
  induction libraries generalizing references patience with
  | nil =>
    cases h
    exact hstack
  | cons listed rest ih =>
    obtain ⟨text, image, between, htext, himage, h⟩ := extend_cons_ok h
    obtain ⟨hok, hdecode⟩ := readBack_ok himage
    -- what is compiled so far is a part of what comes out, so the library can be written against it
    have hbefore := (List.prefix_append references [image]).trans (prefix_of_extend h)
    obtain rfl := Image.eq_of_decode
      (hwritable listed List.mem_cons_self text htext references hbefore) hdecode
    obtain ⟨ds, hmade, -⟩ := Compilation.madeOf_of_ok hok hstack.types_nodup
    rw [List.map_cons, List.nodup_cons] at hnodup
    refine ih h (hstack.snoc hmade.joins (hnew listed List.mem_cons_self)) hnodup.2 ?_ ?_
    · intro other hother
      rw [names, List.map_append, List.mem_append, not_or]
      refine ⟨hnew other (List.mem_cons_of_mem _ hother), ?_⟩
      rw [List.map_singleton, List.mem_singleton]
      intro (heq : other.2 = listed.2)
      exact hnodup.1 (heq ▸ List.mem_map_of_mem hother)
    · intro other hother
      exact hwritable other (List.mem_cons_of_mem _ hother)

theorem stack_of_resolve {sources : List LibrarySource} {patience left : Patience}
    {references : References} (h : resolve sources patience = .ok (references, left))
    (hwritable : Writable sources references) : Stack references := by
  obtain ⟨libraries, hlibraries, hextend⟩ := bind_eq_ok h
  have hnames := mapError_eq_ok hlibraries
  refine stack_of_extend hextend .nil (nodup_enumerate hnames).1 ?_ (hwritable libraries hnames)
  intro listed _ hmem
  cases hmem

/-! ## Where libraries come from -/

/-- Every library that is listed has its place behind those that were there, as it was compiled
against what stands before it. -/
theorem compiled_of_extend {patience left : Patience} {references all : References}
    {libraries : List (LibrarySource × String)}
    (h : extend references libraries patience = .ok (all, left)) :
    all.length = references.length + libraries.length ∧
      ∀ i listed, libraries[i]? = some listed → ∃ text image,
        all[references.length + i]? = some image ∧ fetch listed.1 listed.2 = .ok text ∧
        readBack listed.2 (library (all.take (references.length + i)) listed.2 text) =
          .ok image := by
  induction libraries generalizing references patience with
  | nil =>
    cases h
    exact ⟨rfl, fun i listed hi => by simp at hi⟩
  | cons first rest ih =>
    obtain ⟨text, image, between, htext, himage, h⟩ := extend_cons_ok h
    obtain ⟨hlength, hrest⟩ := ih h
    rw [List.length_append, List.length_singleton] at hlength hrest
    obtain ⟨behind, rfl⟩ := prefix_of_extend h
    refine ⟨by rw [hlength, List.length_cons]; omega, fun i listed hi => ?_⟩
    -- The first library stands where the earlier ones end, the others behind it.
    cases i with
    | zero =>
      cases hi
      refine ⟨text, image, ?_, htext, ?_⟩
      · rw [List.append_assoc, Nat.add_zero, List.getElem?_append_right (Nat.le_refl _)]
        simp
      · rwa [List.append_assoc, Nat.add_zero, List.take_left]
    | succ i =>
      have hplace : references.length + (i + 1) = references.length + 1 + i := by omega
      rw [hplace]
      exact hrest i listed hi

/-- Every library is made of declarations, against the libraries before it. -/
def Built (references : References) : Prop :=
  ∀ i image, references[i]? = some image →
    ∃ s ds, MadeOf (references.take i) image .referenceLibrary s ds

section

variable {sources : List LibrarySource} {patience left : Patience} {references : References}
  (h : resolve sources patience = .ok (references, left)) (hwritable : Writable sources references)

include h

theorem compiled_of_resolve : ∃ libraries, enumerate [] sources = .ok libraries ∧
    references.length = libraries.length ∧ ∀ i listed, libraries[i]? = some listed →
      ∃ text image, references[i]? = some image ∧ fetch listed.1 listed.2 = .ok text ∧
        readBack listed.2 (library (references.take i) listed.2 text) = .ok image := by
  obtain ⟨libraries, hlibraries, hextend⟩ := bind_eq_ok h
  obtain ⟨hlength, hcompiled⟩ := compiled_of_extend hextend
  rw [List.length_nil] at hlength hcompiled
  simp only [Nat.zero_add] at hlength hcompiled
  exact ⟨libraries, mapError_eq_ok hlibraries, hlength, hcompiled⟩

include hwritable

/-- The declarations of a library are read in its text. -/
theorem madeOf_of_readBack {libraries : List (LibrarySource × String)}
    (hlibraries : enumerate [] sources = .ok libraries) {listed : LibrarySource × String}
    (hmem : listed ∈ libraries) {text : String} (htext : fetch listed.1 listed.2 = .ok text)
    {i : Nat} {image : Image}
    (himage : readBack listed.2 (library (references.take i) listed.2 text) = .ok image) :
    image.name = listed.2 ∧
      ∃ s ds, MadeOf (references.take i) image .referenceLibrary s ds ∧
        ∀ d ∈ ds, d.decl ∈ (Parsed.ofSource text).types := by
  obtain ⟨hok, hdecode⟩ := readBack_ok himage
  have hstack := (stack_of_resolve h hwritable).take i
  obtain ⟨ds, hmade, hparsed⟩ := Compilation.madeOf_of_ok hok hstack.types_nodup
  obtain rfl := Image.eq_of_decode
    (hwritable libraries hlibraries listed hmem text htext _ (List.take_prefix _ _)) hdecode
  refine ⟨rfl, _, ds, hmade, fun d hd => ?_⟩
  have hd := hparsed d hd
  simp only [Compilation.parseUnits, List.map_cons, List.map_nil, List.flatMap_cons,
    List.flatMap_nil, List.append_nil, List.mem_map] at hd
  obtain ⟨decl, hdecl, rfl⟩ := hd
  exact hdecl

theorem built_of_resolve : Built references := by
  obtain ⟨libraries, hlibraries, hlength, hcompiled⟩ := compiled_of_resolve h
  intro i image himage
  obtain ⟨hi, -⟩ := List.getElem?_eq_some_iff.1 himage
  have hlibrary : libraries[i]? = some libraries[i] := List.getElem?_eq_getElem (by omega)
  obtain ⟨text, image', himage', htext, hcompile⟩ := hcompiled i _ hlibrary
  obtain rfl := Option.some.inj (himage.symm.trans himage')
  obtain ⟨-, s, ds, hmade, -⟩ := madeOf_of_readBack h hwritable hlibraries
    (List.getElem_mem _) htext hcompile
  exact ⟨s, ds, hmade⟩

end

/-! ## A set of one library -/

theorem resolve_of_isOk {sources : List LibrarySource}
    (h : (resolveToEnd sources).isOk = true) :
    resolve sources none = .ok ((resolveToEnd sources).toOption.getD [], none) := by
  unfold resolveToEnd at h ⊢
  cases hresolve : resolve sources none with
  | ok resolved =>
    obtain ⟨references, left⟩ := resolved
    rw [resolve_never hresolve] at hresolve
    cases hresolve
    rfl
  | error e =>
    rw [hresolve] at h
    cases h

theorem fetch_single (name text : String) :
    fetch (.ofList [(name, some (Pack.utf8 text))]) name = .ok text := by
  have hbytes : (LibrarySource.ofList [(name, some (Pack.utf8 text))]).bytes name =
      .ok (Pack.utf8 text) := by
    simp [LibrarySource.ofList]
  rw [fetch, hbytes]
  show (Except.ok (Pack.utf8 text) >>= _) = _
  simp only [bind, Except.bind, Pack.fromUTF8?_utf8]
  rfl

theorem writable_single {name text : String} {references : References}
    (h : ∀ before ∈ references.inits, (Compilation.ofUnits name [⟨name ++ ".gen", text⟩] before
      .referenceLibrary).image.toPack.isWritable = true) :
    Writable [.ofList [(name, some (Pack.utf8 text))]] references := by
  have henumerate : enumerate [] [.ofList [(name, some (Pack.utf8 text))]] =
      .ok [(.ofList [(name, some (Pack.utf8 text))], name)] := rfl
  refine writable_of_all ?_
  simp only [henumerate, Except.toOption, Option.any_some, List.all_cons, List.all_nil,
    Bool.and_true, fetch_single, Option.all_some]
  exact List.all_eq_true.2 h

end References

end GenLang
