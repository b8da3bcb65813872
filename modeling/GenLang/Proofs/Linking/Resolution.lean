import GenLang.Proofs.Linking.Soundness

/-!
# Resolved sets of libraries

The libraries of a resolved set come in the order in which they are first listed. Each is read from
the first source that lists it and compiled without errors against those before it, so that no two
types of the set share a name.
-/

namespace GenLang

/-- Whether a source lists a library. -/
def LibrarySource.lists (source : LibrarySource) (name : String) : Bool :=
  match source.names with
  | .ok names => names.contains name
  | .error _ => false

theorem LibrarySource.lists_of_names {source : LibrarySource} {names : List String}
    (h : source.names = .ok names) (name : String) : source.lists name = names.contains name := by
  rw [lists, h]

namespace References

/-- A library belongs to the first source that lists it. -/
theorem find?_lists_of_enumerate {seen : List String} {sources : List LibrarySource}
    {libraries : List (LibrarySource × String)} (h : enumerate seen sources = .ok libraries) :
    ∀ library ∈ libraries, sources.find? (·.lists library.2) = some library.1 := by
  induction sources generalizing seen libraries with
  | nil =>
    cases h
    exact fun _ h => absurd h List.not_mem_nil
  | cons source rest ih =>
    obtain ⟨names, others, hnames, hothers, rfl⟩ := enumerate_cons_ok h
    intro library hlibrary
    rcases List.mem_append.1 hlibrary with hlibrary | hlibrary
    · obtain ⟨name, hname, rfl⟩ := List.mem_map.1 hlibrary
      rw [List.mem_eraseDups, List.mem_filter] at hname
      refine List.find?_cons_of_pos ?_
      rw [LibrarySource.lists_of_names hnames]
      exact List.contains_iff_mem.2 hname.1
    · -- what this source lists has been seen behind it
      have hnew := (nodup_enumerate hothers).2 _ (List.mem_map_of_mem hlibrary)
      rw [List.mem_append, not_or, List.mem_eraseDups, List.mem_filter] at hnew
      rw [List.find?_cons_of_neg]
      · exact ih hothers library hlibrary
      · rw [LibrarySource.lists_of_names hnames, List.contains_iff_mem]
        exact fun hname => hnew.2 ⟨hname, by simpa using hnew.1⟩

/-- An image is the library of its name: compiled without errors, against the libraries before it,
from the text that the first source that lists it has for it. -/
structure Provided (sources : List LibrarySource) (before : References) (image : Image)
    (source : LibrarySource) (text : String) : Prop where
  listed : sources.find? (·.lists image.name) = some source
  fetched : fetch source image.name = .ok text
  ok : (library before image.name text).hasErrors = false
  image : image = (library before image.name text).image

/-- What is known of a resolved set. -/
structure WellFormed (sources : List LibrarySource) (references : References) : Prop where
  names_nodup : references.names.Nodup
  /-- Libraries come as the sources first list them. -/
  ordered : ∃ lists : List (List String), sources.map (·.names) = lists.map .ok ∧
    references.names = lists.flatten.eraseDups
  provided : ∀ i image, references[i]? = some image →
    ∃ source text, Provided sources (references.take i) image source text
  /-- A library refers to all libraries before it and to no other one. -/
  refers : ∀ i image, references[i]? = some image → image.references = names (references.take i)
  types_nodup : ((references.flatMap (·.types)).map (·.name)).Nodup
  /-- The table that a library or a program starts from has all types that are offered to it. -/
  entered : ∀ before, before <+: references →
    (Declaration.libraryTable before).types = Declaration.libraryTypes before

variable {sources : List LibrarySource} {patience left : Patience} {references : References}

section

variable (h : resolve sources patience = .ok (references, left))
  (hwritable : Writable sources references)

include h hwritable

/-- Every library of a set is the one listed at its place. -/
theorem provided_of_resolve : ∃ libraries, enumerate [] sources = .ok libraries ∧
    references.names = libraries.map (·.2) ∧
      ∀ i image, references[i]? = some image →
        ∃ source text, Provided sources (references.take i) image source text := by
  obtain ⟨libraries, hlibraries, hlength, hcompiled⟩ := compiled_of_resolve h
  -- the image of a library is read back as it was written
  have himage (i : Nat) (listed : LibrarySource × String) (hlisted : libraries[i]? = some listed) :
      ∃ text, fetch listed.1 listed.2 = .ok text ∧
        (library (references.take i) listed.2 text).hasErrors = false ∧
        references[i]? = some (library (references.take i) listed.2 text).image := by
    obtain ⟨text, image, hi, htext, hcompile⟩ := hcompiled i listed hlisted
    obtain ⟨hok, hdecode⟩ := readBack_ok hcompile
    obtain rfl := Image.eq_of_decode (hwritable libraries hlibraries listed
      (List.mem_of_getElem? hlisted) text htext _ (List.take_prefix i references)) hdecode
    exact ⟨text, htext, hok, hi⟩
  refine ⟨libraries, hlibraries, ?_, fun i image hi => ?_⟩
  · refine List.ext_getElem? fun i => ?_
    rw [names, List.getElem?_map, List.getElem?_map]
    cases hlisted : libraries[i]? with
    | none =>
      rw [List.getElem?_eq_none_iff, ← hlength, ← List.getElem?_eq_none_iff] at hlisted
      rw [hlisted]
      rfl
    | some listed =>
      obtain ⟨text, -, -, hi⟩ := himage i listed hlisted
      rw [hi]
      rfl
  · obtain ⟨hlt, -⟩ := List.getElem?_eq_some_iff.1 hi
    have hlisted : libraries[i]? = some libraries[i] := List.getElem?_eq_getElem (hlength ▸ hlt)
    obtain ⟨text, htext, hok, hi'⟩ := himage i _ hlisted
    have himage := Option.some.inj (hi.symm.trans hi')
    have hname : image.name = libraries[i].2 := by
      rw [himage]
      rfl
    have hfirst := find?_lists_of_enumerate hlibraries _ (List.mem_of_getElem? hlisted)
    rw [← hname] at hfirst htext hok himage
    exact ⟨_, text, hfirst, htext, hok, himage⟩

/-- Every resolved set is well formed. -/
theorem wellFormed_of_resolve : WellFormed sources references := by
  obtain ⟨libraries, hlibraries, hnames, hprovided⟩ := provided_of_resolve h hwritable
  obtain ⟨lists, hlists, hlisted⟩ := names_enumerate hlibraries
  have htypes := (stack_of_resolve h hwritable).types_nodup
  refine ⟨?_, ⟨lists, hlists, ?_⟩, hprovided, fun i image hi => ?_, ?_, fun before hbefore => ?_⟩
  · rw [hnames]
    exact (nodup_enumerate hlibraries).1
  · rw [hnames, hlisted, List.filter_eq_self.2 fun name _ => by simp]
  · obtain ⟨source, text, hlibrary⟩ := hprovided i image hi
    rw [hlibrary.image]
    rfl
  · rw [Declaration.libraryTypes, List.map_flatMap] at htypes
    rw [List.map_flatMap]
    simpa only [List.map_map, Function.comp_def, TypeSymbol.ofDef] using htypes
  · refine Declaration.types_libraryTable (htypes.sublist ?_)
    obtain ⟨more, rfl⟩ := hbefore
    rw [Declaration.libraryTypes, Declaration.libraryTypes, List.flatMap_append, List.map_append]
    exact List.sublist_append_left _ _

end

/-! ## A library that is listed twice -/

/-- A library on the types of another one, and a second library of that one's name. -/
def shadowedSources : List LibrarySource :=
  [.ofList [("L", some (Pack.utf8 leafLibrary))],
    .ofList [("K", some (Pack.utf8 "type E : A {}")), ("L", some (Pack.utf8 "type E {}"))]]

def shadowedReferences : References :=
  (resolveToEnd shadowedSources).toOption.getD []

theorem wellFormed_of_resolve_shadowed :
    resolve shadowedSources none = .ok (shadowedReferences, none) ∧
      Writable shadowedSources shadowedReferences ∧
      WellFormed shadowedSources shadowedReferences := by
  have hevaluates : (resolveToEnd shadowedSources).isOk = true ∧
      (enumerate [] shadowedSources).toOption.any fun libraries =>
        libraries.all fun listed => shadowedReferences.inits.all fun before =>
          (fetch listed.1 listed.2).toOption.all fun text =>
            (library before listed.2 text).image.toPack.isWritable := by
    decide +kernel
  have hresolve := resolve_of_isOk hevaluates.1
  have hwritable := writable_of_all hevaluates.2
  exact ⟨hresolve, hwritable, wellFormed_of_resolve hresolve hwritable⟩

end References

end GenLang
