import GenLang.Proofs.Linking.Libraries
import GenLang.Machine

/-!
# The standard libraries

Where the standard libraries come first, they are the first of the resolved libraries, and their
types are those declared in their texts.
-/

namespace GenLang

namespace StandardLibrary

theorem toList_textOfLines (lines : List String) :
    (textOfLines lines).toList = lines.flatMap fun l => l.toList ++ ['\n'] := by
  rw [textOfLines]
  induction lines with
  | nil => rfl
  | cons l lines ih =>
    rw [List.map_cons, List.flatMap_cons, ← ih]
    simp [String.join_cons]

/-- What generators have to be is a capability with a method for objects that takes one argument. -/
def asksForExecute (t : TypeDecl) : Bool :=
  t.name.name != "Generator" || t.kind == .capability && t.methods.any fun m =>
    m.name.name == "Execute" && !m.isStatic && m.params.length == 1

/-- Every native static method is bound. -/
def bindsNatives (t : TypeDecl) : Bool :=
  t.methods.all fun m =>
    !(m.isStatic && m.isNative) || (Native.find? t.name.name m.name.name).isSome

theorem system_types :
    (Parsed.ofSource (textOfLines systemLines)).types.all bindsNatives = true := by
  rw [Parsed.ofSource, Lexeme.ofSource, Lexeme.scan, toList_textOfLines]
  -- The text is a list of characters before anything is read in it.
  simp only [systemLines, List.flatMap_cons, List.flatMap_nil, String.reduceToList,
    List.cons_append, List.nil_append, List.append_nil]
  decide +kernel

theorem generation_types : ((Parsed.ofSource (textOfLines generationLines)).types.all fun t =>
    asksForExecute t && bindsNatives t) = true := by
  rw [Parsed.ofSource, Lexeme.ofSource, Lexeme.scan, toList_textOfLines]
  simp only [generationLines, List.flatMap_cons, List.flatMap_nil, String.reduceToList,
    List.cons_append, List.nil_append, List.append_nil]
  decide +kernel

theorem asksForExecute_of_mem {t : TypeDecl}
    (ht : t ∈ (Parsed.ofSource (textOfLines generationLines)).types) : asksForExecute t = true :=
  (Bool.and_eq_true_iff.1 (List.all_eq_true.1 generation_types t ht)).1

theorem bindsNatives_of_mem {library : String × String} (h : library ∈ all) {t : TypeDecl}
    (ht : t ∈ (Parsed.ofSource library.2).types) : bindsNatives t = true := by
  rcases List.mem_cons.1 h with rfl | h
  · exact List.all_eq_true.1 system_types t ht
  · obtain rfl := List.mem_singleton.1 h
    exact (Bool.and_eq_true_iff.1 (List.all_eq_true.1 generation_types t ht)).2

end StandardLibrary

namespace References

theorem enumerate_standard {more : List LibrarySource} {libraries : List (LibrarySource × String)}
    (h : enumerate [] (.standard :: more) = .ok libraries) :
    StandardLibrary.all.map (LibrarySource.standard, ·.1) <+: libraries := by
  unfold enumerate at h
  obtain ⟨names, hnames, h⟩ := bind_eq_ok h
  obtain ⟨others, -, h⟩ := bind_eq_ok h
  cases hnames
  cases h
  exact ⟨others, rfl⟩

theorem enumerate_standard_alone : enumerate [] [.standard] =
    .ok (StandardLibrary.all.map (LibrarySource.standard, ·.1)) :=
  rfl

theorem fetch_standard {library : String × String} (h : library ∈ StandardLibrary.all) :
    fetch .standard library.1 = .ok library.2 := by
  have hbytes : LibrarySource.standard.bytes library.1 = .ok (Pack.utf8 library.2) := by
    rcases List.mem_cons.1 h with rfl | h
    · rfl
    · obtain rfl := List.mem_singleton.1 h
      rfl
  rw [fetch, hbytes]
  show (Except.ok (Pack.utf8 library.2) >>= _) = _
  simp only [bind, Except.bind, Pack.fromUTF8?_utf8]
  rfl

/-- A standard library is found at its place, made of the declarations in its text. -/
theorem madeOf_standard {more : List LibrarySource} {patience left : Patience}
    {references : References} (h : resolve (.standard :: more) patience = .ok (references, left))
    (hwritable : Writable (.standard :: more) references) {i : Nat} {library : String × String}
    (hi : StandardLibrary.all[i]? = some library) :
    ∃ image, references[i]? = some image ∧ image.name = library.1 ∧
      ∃ s ds, MadeOf (references.take i) image .referenceLibrary s ds ∧
        ∀ d ∈ ds, d.decl ∈ (Parsed.ofSource library.2).types := by
  obtain ⟨libraries, hlibraries, -, hcompiled⟩ := compiled_of_resolve h
  obtain ⟨others, rfl⟩ := enumerate_standard hlibraries
  have hplace : (StandardLibrary.all.map (LibrarySource.standard, ·.1) ++ others)[i]? =
      some (.standard, library.1) := by
    obtain ⟨hlt, -⟩ := List.getElem?_eq_some_iff.1 hi
    rw [List.getElem?_append_left (by rwa [List.length_map]), List.getElem?_map, hi]
    rfl
  obtain ⟨text, image, himage, htext, hcompile⟩ := hcompiled i _ hplace
  have hstandard := fetch_standard (List.mem_of_getElem? hi)
  obtain rfl : library.2 = text := Except.ok.inj (hstandard.symm.trans htext)
  exact ⟨image, himage, madeOf_of_readBack h hwritable hlibraries
    (List.mem_of_getElem? hplace) htext hcompile⟩

end References

end GenLang
