import GenLang.Proofs.Linking.Contracts
import GenLang.Proofs.Linking.Sums

/-!
# Loading what was compiled

What was compiled without errors is emitted, and loaded again with the libraries it was compiled
against, unless it nests deeper than the reader of its format follows. That is the only way in which
a library, a generator or a program that compiles can fail before it is run.
-/

namespace GenLang

/-! ## Steps that fail -/

theorem bind_eq_error {ε α β : Type} {x : Except ε α} {f : α → Except ε β} {e : ε}
    (h : x >>= f = .error e) : x = .error e ∨ ∃ a, x = .ok a ∧ f a = .error e := by
  cases x with
  | error e' => exact .inl (congrArg Except.error (Except.error.inj h))
  | ok a => exact .inr ⟨a, rfl, h⟩

theorem mapError_eq_error {ε ε' α : Type} {x : Except ε α} {f : ε → ε'} {e : ε'}
    (h : x.mapError f = .error e) : ∃ e', x = .error e' ∧ f e' = e := by
  cases x with
  | error e' => exact ⟨e', rfl, Except.error.inj h⟩
  | ok a => cases h

theorem map_eq_error {ε α β : Type} {x : Except ε α} {f : α → β} {e : ε}
    (h : x.map f = .error e) : x = .error e := by
  cases x with
  | error e' => exact congrArg Except.error (Except.error.inj h)
  | ok a => cases h

/-! ## Reading images back -/

/-- The format has room for the numbers and lengths of an image. -/
structure Image.Expressible (i : Image) : Prop where
  fits : i.fits
  writable : i.toPack.isWritable

namespace Image

variable {i : Image}

/-- An image nests deeper than the reader of its format follows. -/
def TooDeep (i : Image) : Prop :=
  Pack.maxDepth < i.toPack.nesting

theorem decode_of_not_tooDeep (hi : i.Expressible) (hversion : i.version = currentVersion)
    (hdeep : ¬i.TooDeep) : decode i.encode = .ok i := by
  have hdecode := decode_eq (Pack.ofBytes_write_self hi.writable (Nat.le_of_not_lt hdeep))
    (ofPack?_toPack hi.fits (Nat.le_refl _))
  rwa [if_pos hversion] at hdecode

theorem decode_of_tooDeep (hi : i.Expressible) (hdeep : i.TooDeep) :
    decode i.encode = .error .tooDeep :=
  -- The bytes are those of a value, which the reader gives up on before it gets to the version.
  decode_eq_error (Pack.ofBytes_write_tooDeep hi.writable hdeep)

theorem tooDeep_of_decode (hi : i.Expressible) (hversion : i.version = currentVersion)
    {e : DecodeError} (h : decode i.encode = .error e) : i.TooDeep ∧ e = .tooDeep := by
  by_cases hdeep : i.TooDeep
  · rw [decode_of_tooDeep hi hdeep] at h
    exact ⟨hdeep, (Except.error.inj h).symm⟩
  · rw [decode_of_not_tooDeep hi hversion hdeep] at h
    cases h

end Image

/-! ## Compilations -/

namespace Compilation

variable {c : Compilation}

theorem emit_of_ok (h : c.hasErrors = false) : c.emit = .ok c.image.encode := by
  rw [emit, if_pos]
  simpa [hasErrors] using h

theorem loadBytes_of_not_tooDeep (hc : c.image.Expressible) (hdeep : ¬c.image.TooDeep) :
    Hierarchy.loadBytes c.image.encode c.references = .ok ⟨c.references, c.image⟩ := by
  rw [Hierarchy.loadBytes, Image.decode_of_not_tooDeep hc rfl hdeep]
  exact Hierarchy.load_image c

theorem loadBytes_of_tooDeep (hc : c.image.Expressible) (hdeep : c.image.TooDeep) :
    Hierarchy.loadBytes c.image.encode c.references = .error (.decode .tooDeep) := by
  rw [Hierarchy.loadBytes, Image.decode_of_tooDeep hc hdeep]
  rfl

end Compilation

theorem EntryPoint.find_ne_load (h : Hierarchy) (e : LoadError) :
    find h ≠ .error (.load e) := by
  intro heq
  unfold find at heq
  split at heq
  · cases heq
  · split at heq
    · cases heq
    · next m _ =>
      by_cases hparams : 1 < m.params.length
      · rw [if_pos hparams] at heq
        cases heq
      · rw [if_neg hparams] at heq
        dsimp only at heq
        split at heq <;> cases heq

/-- No other step of an execution fails as loading does. -/
theorem execute_eq_load {bytes : List UInt8} {libraries : References} {limits : Limits}
    {e : LoadError} (h : execute bytes libraries limits = .error (.load e)) :
    Hierarchy.loadBytes bytes libraries = .error e := by
  rcases bind_eq_error h with hload | ⟨h', hload, hrun⟩
  · obtain ⟨e', he, heq⟩ := mapError_eq_error hload
    cases heq
    exact he
  · exfalso
    rcases bind_eq_error hrun with hfind | ⟨entry, -, hrun⟩
    · exact EntryPoint.find_ne_load h' e hfind
    · split at hrun <;> cases hrun

/-! ## Generators -/

theorem Generator.discover_ne_emit {image : Image} {libraries : References} {limits : Limits}
    {h : Hierarchy} (hload : Hierarchy.load image libraries = .ok h) {a : Artifact}
    {cause : String} : (discover image libraries limits).1 ≠ .error (.emit a cause) := by
  intro heq
  unfold discover at heq
  rw [hload] at heq
  dsimp only at heq
  split at heq <;> split at heq <;> cases heq

namespace GeneratorCompiler

variable {s : GeneratorCompiler} {source : String} {libraries : References} {patience : Patience}

theorem readBack_eq {c : Compilation} (hok : c.hasErrors = false) :
    readBack c = (Image.decode c.image.encode).mapError fun e => .emit .generator e.message := by
  unfold readBack
  rw [hok, Compilation.emit_of_ok hok]
  generalize c.image.encode = bytes
  rfl

theorem tooDeep_of_readBack {c : Compilation} {a : Artifact} {cause : String}
    (h : readBack c = .error (.emit a cause)) (hi : c.image.Expressible)
    (hversion : c.image.version = Image.currentVersion) :
    c.hasErrors = false ∧ c.image.TooDeep ∧ cause = DecodeError.message .tooDeep := by
  cases hok : c.hasErrors with
  | true =>
    unfold readBack at h
    rw [hok] at h
    cases h
  | false =>
    -- All errors that are reported so are those of reading back.
    rw [readBack_eq hok] at h
    obtain ⟨e, hdecode, heq⟩ := mapError_eq_error h
    obtain ⟨hdeep, rfl⟩ := Image.tooDeep_of_decode hi hversion hdecode
    cases heq
    exact ⟨rfl, hdeep, rfl⟩

/-- A generator without errors that cannot be read back is one that nests too deep. -/
theorem tooDeep_of_build {a : Artifact} {cause : String}
    (h : (s.build source libraries patience).1 = .error (.emit a cause))
    (hi : (s.module source libraries).image.Expressible) :
    (s.module source libraries).hasErrors = false ∧
      (s.module source libraries).image.TooDeep ∧ cause = DecodeError.message .tooDeep := by
  unfold build at h
  dsimp only at h
  split at h
  · next e hbuilt =>
    cases h
    -- who gives up reports that and nothing else
    rcases bind_eq_error hbuilt with hcreate | ⟨⟨c, between⟩, hcreate, hbuilt⟩
    · obtain ⟨-, -, heq⟩ := mapError_eq_error hcreate
      cases heq
    obtain rfl := Compilation.eq_ofUnits_of_create (mapError_eq_ok hcreate)
    rcases bind_eq_error hbuilt with hread | ⟨image, -, hbuilt⟩
    · exact tooDeep_of_readBack hread hi rfl
    rcases bind_eq_error hbuilt with hcheck | ⟨last, -, hbuilt⟩
    · obtain ⟨-, -, heq⟩ := mapError_eq_error hcheck
      cases heq
    · cases hbuilt
  · next image left hbuilt =>
    -- What was read back is loaded with the libraries it was compiled against.
    obtain ⟨⟨c, between⟩, hcreate, hbuilt⟩ := bind_eq_ok hbuilt
    obtain ⟨image', hread, hbuilt⟩ := bind_eq_ok hbuilt
    obtain ⟨last, -, hbuilt⟩ := bind_eq_ok hbuilt
    cases hbuilt
    obtain rfl := Compilation.eq_ofUnits_of_create (mapError_eq_ok hcreate)
    obtain rfl := Image.eq_of_decode hi.writable (readBack_ok hread).2
    have hload : Hierarchy.load (s.module source libraries).image libraries = .ok _ :=
      Hierarchy.load_image (s.module source libraries)
    exact absurd (map_eq_error h) (Generator.discover_ne_emit hload)

theorem build_of_tooDeep (hok : (s.module source libraries).hasErrors = false)
    (hi : (s.module source libraries).image.Expressible)
    (hdeep : (s.module source libraries).image.TooDeep) :
    s.build source libraries none =
      (.error (.emit .generator (DecodeError.message .tooDeep)), []) := by
  have hread : readBack (s.module source libraries) =
      .error (.emit .generator (DecodeError.message .tooDeep)) := by
    rw [readBack_eq hok, Image.decode_of_tooDeep hi hdeep]
    rfl
  unfold module at hread
  unfold build
  simp only [Compilation.create_never, hread, Except.mapError, bind, Except.bind]

theorem tooDeep_of_compile {a : Artifact} {cause : String}
    (h : (s.compile source libraries patience).1 = .error (.emit a cause))
    (hi : (s.module source libraries).image.Expressible) :
    (s.module source libraries).hasErrors = false ∧
      (s.module source libraries).image.TooDeep ∧ cause = DecodeError.message .tooDeep := by
  unfold compile at h
  dsimp only at h
  split at h
  · cases h
  · split at h
    · cases h
    · split at h
      · cases h
      · next e log hbuild =>
        obtain rfl := Except.error.inj h
        -- The compiler is the same one, having counted.
        have hbuilt : (s.build source libraries patience).1 = .error (.emit a cause) :=
          congrArg Prod.fst hbuild
        exact tooDeep_of_build hbuilt hi

end GeneratorCompiler

/-! ## Libraries -/

namespace References

theorem readBack_eq {name : String} {c : Compilation} (hok : c.hasErrors = false) :
    readBack name c = (Image.decode c.image.encode).mapError (.decode name) := by
  unfold readBack
  rw [hok, Compilation.emit_of_ok hok]
  generalize c.image.encode = bytes
  rfl

theorem of_readBack_error {name : String} {c : Compilation} {e : ReferenceError}
    (h : readBack name c = .error e) :
    (∃ errors, e = .compile name errors) ∨ c.hasErrors = false ∧
      ∃ e', e = .decode name e' ∧ Image.decode c.image.encode = .error e' := by
  cases hok : c.hasErrors with
  | true =>
    unfold readBack at h
    rw [hok] at h
    cases h
    exact .inl ⟨_, rfl⟩
  | false =>
    rw [readBack_eq hok] at h
    obtain ⟨e', hdecode, rfl⟩ := mapError_eq_error h
    exact .inr ⟨rfl, e', rfl, hdecode⟩

theorem of_compileLibrary_error {before : References} {name text : String} {patience : Patience}
    {e : ReferenceError} (h : compileLibrary before name text patience = .error e) :
    e = .cancelled ∨ readBack name (library before name text) = .error e := by
  rcases bind_eq_error h with hcreate | ⟨⟨c, left⟩, hcreate, h⟩
  · obtain ⟨-, -, rfl⟩ := mapError_eq_error hcreate
    exact .inl rfl
  obtain rfl := Compilation.eq_ofUnits_of_create (mapError_eq_ok hcreate)
  rcases bind_eq_error h with hread | ⟨image, -, h⟩
  · exact .inr hread
  · cases h

theorem compileLibrary_of_tooDeep {before : References} {name text : String}
    (hok : (library before name text).hasErrors = false)
    (hi : (library before name text).image.Expressible)
    (hdeep : (library before name text).image.TooDeep) :
    compileLibrary before name text none = .error (.decode name .tooDeep) := by
  have hread : readBack name (library before name text) = .error (.decode name .tooDeep) := by
    rw [readBack_eq hok, Image.decode_of_tooDeep hi hdeep]
    rfl
  unfold library at hread
  unfold compileLibrary
  simp only [Compilation.create_never, hread, Except.mapError, bind, Except.bind]

/-- The library that cannot be read back: it compiles without errors against those before it. -/
def Unread (patience : Patience) (start : References) (libraries : List (LibrarySource × String))
    (name : String) (e : DecodeError) : Prop :=
  ∃ first source last before left text, libraries = first ++ (source, name) :: last ∧
    extend start first patience = .ok (before, left) ∧ fetch source name = .ok text ∧
      (library before name text).hasErrors = false ∧
      Image.decode (library before name text).image.encode = .error e

theorem Unread.cons {patience waiting left : Patience} {start : References}
    {source : LibrarySource} {name text : String} {image : Image}
    (hcheck : patience.check = .ok waiting) (htext : fetch source name = .ok text)
    (himage : compileLibrary start name text waiting = .ok (image, left))
    {libraries : List (LibrarySource × String)} {other : String} {e : DecodeError}
    (h : Unread left (start ++ [image]) libraries other e) :
    Unread patience start ((source, name) :: libraries) other e := by
  obtain ⟨first, source', last, before, after, text', rfl, hfirst, hrest⟩ := h
  refine ⟨(source, name) :: first, source', last, before, after, text', rfl, ?_, hrest⟩
  unfold extend
  simp only [hcheck, htext, himage, Except.mapError, bind, Except.bind]
  exact hfirst

/-- By induction on the libraries that are left. -/
theorem unread_of_extend {patience : Patience} {start : References}
    {libraries : List (LibrarySource × String)} {e : ReferenceError}
    (h : extend start libraries patience = .error e) :
    (∀ name e', e ≠ .emit name e') ∧
      ∀ name e', e = .decode name e' → Unread patience start libraries name e' := by
  induction libraries generalizing start patience with
  | nil => cases h
  | cons listed rest ih =>
    obtain ⟨source, name⟩ := listed
    unfold extend at h
    rcases bind_eq_error h with hcheck | ⟨waiting, hcheck, h⟩
    · obtain ⟨-, -, rfl⟩ := mapError_eq_error hcheck
      exact ⟨fun _ _ => by simp, fun _ _ => by simp⟩
    rcases bind_eq_error h with hfetch | ⟨text, hfetch, h⟩
    · obtain ⟨e', -, rfl⟩ := mapError_eq_error hfetch
      exact ⟨fun _ _ => by simp, fun _ _ => by simp⟩
    have htext := mapError_eq_ok hfetch
    rcases bind_eq_error h with hcompile | ⟨⟨image, left⟩, himage, h⟩
    · rcases of_compileLibrary_error hcompile with rfl | hread
      · exact ⟨fun _ _ => by simp, fun _ _ => by simp⟩
      -- A library is read back at once, so this is the one that is not read.
      rcases of_readBack_error hread with ⟨errors, rfl⟩ | ⟨hok, e', rfl, hdecode⟩
      · exact ⟨fun _ _ => by simp, fun _ _ => by simp⟩
      · refine ⟨fun _ _ => by simp, fun name' e'' heq => ?_⟩
        cases heq
        exact ⟨[], source, rest, start, patience, text, rfl, rfl, htext, hok, hdecode⟩
    · obtain ⟨hemit, hdecode⟩ := ih h
      refine ⟨hemit, fun name' e' heq => ?_⟩
      exact (hdecode name' e' heq).cons (mapError_eq_ok hcheck) htext himage

theorem unread_of_resolve {sources : List LibrarySource} {patience : Patience}
    {e : ReferenceError} (h : resolve sources patience = .error e) :
    (∀ name e', e ≠ .emit name e') ∧ ∀ name e', e = .decode name e' →
      ∃ libraries, enumerate [] sources = .ok libraries ∧
        Unread patience [] libraries name e' := by
  rcases bind_eq_error h with hlibraries | ⟨libraries, hlibraries, h⟩
  · obtain ⟨e', -, rfl⟩ := mapError_eq_error hlibraries
    exact ⟨fun _ _ => by simp, fun _ _ => by simp⟩
  · obtain ⟨hemit, hdecode⟩ := unread_of_extend h
    exact ⟨hemit, fun name e' heq => ⟨libraries, mapError_eq_ok hlibraries, hdecode name e' heq⟩⟩

end References

/-! ## What compiles and what does not load -/

/-- A library in its turn: its text, and the libraries before it, compiled. -/
def References.InTurn (sources : List LibrarySource) (patience : Patience) (before : References)
    (name text : String) : Prop :=
  ∃ first source last left, enumerate [] sources = .ok (first ++ (source, name) :: last) ∧
    extend [] first patience = .ok (before, left) ∧ fetch source name = .ok text

/-- What was compiled without errors is emitted, and as the module it is it is loaded again with the
libraries it was compiled against, unless it nests too deep for that. Nothing else keeps a program
from being loaded to be run, a generator from being loaded, or a library from being read back. -/
theorem loads_unless_deep (c : Compilation) (s : GeneratorCompiler) (source : String)
    (libraries : References) (sources : List LibrarySource) (patience : Patience) :
    (c.hasErrors = false →
      c.emit = .ok c.image.encode ∧
      (c.image.Expressible →
        (¬c.image.TooDeep →
          Hierarchy.loadBytes c.image.encode c.references = .ok ⟨c.references, c.image⟩) ∧
        (c.image.TooDeep →
          Hierarchy.loadBytes c.image.encode c.references = .error (.decode .tooDeep)) ∧
        ∀ limits e, execute c.image.encode c.references limits = .error (.load e) →
          c.image.TooDeep ∧ e = .decode .tooDeep)) ∧
    (∀ a cause, (s.compile source libraries patience).1 = .error (.emit a cause) →
      (s.module source libraries).image.Expressible →
        (s.module source libraries).hasErrors = false ∧
          (s.module source libraries).image.TooDeep ∧ cause = DecodeError.message .tooDeep) ∧
    ∀ e, References.resolve sources patience = .error e →
      (∀ name e', e ≠ .emit name e') ∧ ∀ name e', e = .decode name e' →
        ∃ before text, References.InTurn sources patience before name text ∧
          (References.library before name text).hasErrors = false ∧
          ((References.library before name text).image.Expressible →
            (References.library before name text).image.TooDeep ∧ e' = .tooDeep) := by
  refine ⟨fun hok => ⟨Compilation.emit_of_ok hok, fun hc => ⟨?_, ?_, ?_⟩⟩, ?_, ?_⟩
  · exact Compilation.loadBytes_of_not_tooDeep hc
  · exact Compilation.loadBytes_of_tooDeep hc
  · intro limits e hexecute
    -- A run that cannot load ends with what loading ends with.
    have hload := execute_eq_load hexecute
    by_cases hdeep : c.image.TooDeep
    · rw [Compilation.loadBytes_of_tooDeep hc hdeep] at hload
      exact ⟨hdeep, (Except.error.inj hload).symm⟩
    · rw [Compilation.loadBytes_of_not_tooDeep hc hdeep] at hload
      cases hload
  · intro a cause hcompile hi
    exact GeneratorCompiler.tooDeep_of_compile hcompile hi
  · intro e hresolve
    obtain ⟨hemit, hdecode⟩ := References.unread_of_resolve hresolve
    refine ⟨hemit, fun name e' heq => ?_⟩
    obtain ⟨found, hfound, first, origin, last, before, left, text, rfl, hfirst, htext, hok,
      hunread⟩ := hdecode name e' heq
    exact ⟨before, text, ⟨first, origin, last, left, hfound, hfirst, htext⟩, hok,
      fun hi => Image.tooDeep_of_decode hi rfl hunread⟩

/-! ## Sums that do not load -/

namespace Ones

/-- A sum with enough operators nests too deep, though it is compiled without errors. -/
theorem tooDeep_text (name file : String) (options : CompileOptions)
    (hname : (Pack.str name).isWritable = true) (hfile : (Pack.str file).isWritable = true)
    (hkind : options.kind = .library) {n : Nat} (hn : Pack.maxDepth < n) :
    (Compilation.ofUnits name [⟨file, text n⟩] [] options).hasErrors = false ∧
      (Compilation.ofUnits name [⟨file, text n⟩] [] options).image.Expressible ∧
      (Compilation.ofUnits name [⟨file, text n⟩] [] options).image.TooDeep := by
  obtain ⟨hok, himage⟩ := ofUnits_text name file hkind n
  rw [himage]
  exact ⟨hok, ⟨fits_image name file n, writable_image hname hfile n⟩,
    Nat.lt_of_lt_of_le hn (nesting_image name file n)⟩

theorem compile_text {n : Nat} (hn : Pack.maxDepth < n) :
    (GeneratorCompiler.compile {} (text n) [] none).1 =
      .error (.emit .generator (DecodeError.message .tooDeep)) := by
  obtain ⟨hok, hi, hdeep⟩ :=
    tooDeep_text "Generator" "Generator.gen" .library (by decide) (by decide) rfl hn
  have hbuild : GeneratorCompiler.build { compileCount := 1 } (text n) [] none =
      (.error (.emit .generator (DecodeError.message .tooDeep)), []) :=
    GeneratorCompiler.build_of_tooDeep hok hi hdeep
  have hblank : Text.allBlank (text n) = false := by
    rw [Text.allBlank, toList_text]
    rfl
  have hget (key : CacheKey) : (GeneratorCompiler.cache {}).get key =
      (none, GeneratorCompiler.cache {}) := rfl
  unfold GeneratorCompiler.compile
  simp only [hblank, hget, Bool.false_eq_true, if_false, Nat.zero_add, hbuild]

theorem resolve_text {n : Nat} (hn : Pack.maxDepth < n) :
    References.resolve [.ofList [("T", some (Pack.utf8 (text n)))]] none =
      .error (.decode "T" .tooDeep) := by
  obtain ⟨hok, hi, hdeep⟩ :=
    tooDeep_text "T" "T.gen" .referenceLibrary (by decide) (by decide) rfl hn
  have hcompile : References.compileLibrary [] "T" (text n) none =
      .error (.decode "T" .tooDeep) := References.compileLibrary_of_tooDeep hok hi hdeep
  have hlibraries : References.enumerate [] [.ofList [("T", some (Pack.utf8 (text n)))]] =
      .ok [(.ofList [("T", some (Pack.utf8 (text n)))], "T")] := rfl
  rw [References.resolve, hlibraries]
  show References.extend [] [(.ofList [("T", some (Pack.utf8 (text n)))], "T")] none = _
  unfold References.extend
  simp only [Patience.check_none, References.fetch_single, hcompile, Except.mapError, bind,
    Except.bind]

end Ones

/-- A module that is loaded, a generator that cannot be, and a library that cannot be read back. -/
theorem loads_unless_deep_leaf :
    let c := Compilation.ofUnits "M" leafUnits leafReferences .library
    let s : GeneratorCompiler := {}
    let sources := [LibrarySource.ofList [("T", some (Pack.utf8 (Ones.text 1100)))]]
    (c.hasErrors = false ∧ c.image.Expressible ∧ ¬c.image.TooDeep ∧
      c.emit = .ok c.image.encode ∧
      Hierarchy.loadBytes c.image.encode c.references = .ok ⟨c.references, c.image⟩) ∧
    ((s.compile (Ones.text 1100) [] none).1 =
        .error (.emit .generator (DecodeError.message .tooDeep)) ∧
      (s.module (Ones.text 1100) []).image.Expressible ∧
      (s.module (Ones.text 1100) []).hasErrors = false ∧
      (s.module (Ones.text 1100) []).image.TooDeep) ∧
    References.resolve sources none = .error (.decode "T" .tooDeep) ∧
      ∃ before text, References.InTurn sources none before "T" text ∧
        (References.library before "T" text).hasErrors = false ∧
        ((References.library before "T" text).image.Expressible →
          (References.library before "T" text).image.TooDeep) := by
  intro c s sources
  have hok : c.hasErrors = false := leaf_evaluates.2.2
  have hevaluates : c.image.fits = true ∧ c.image.toPack.isWritable = true ∧
      c.image.toPack.nesting ≤ Pack.maxDepth := by
    decide +kernel
  have hc : c.image.Expressible := ⟨hevaluates.1, hevaluates.2.1⟩
  have hdeep : ¬c.image.TooDeep := Nat.not_lt.2 hevaluates.2.2
  have hn : Pack.maxDepth < 1100 := by decide
  obtain ⟨hloads, hemits, hreads⟩ := loads_unless_deep c s (Ones.text 1100) [] sources none
  obtain ⟨hemit, hload⟩ := hloads hok
  have hcompile := Ones.compile_text hn
  have hi : (s.module (Ones.text 1100) []).image.Expressible :=
    (Ones.tooDeep_text _ _ _ (by decide) (by decide) rfl hn).2.1
  obtain ⟨hmodule, htooDeep, -⟩ := hemits _ _ hcompile hi
  have hresolve := Ones.resolve_text hn
  obtain ⟨before, text, hturn, hlibrary, hunread⟩ := (hreads _ hresolve).2 "T" .tooDeep rfl
  exact ⟨⟨hok, hc, hdeep, hemit, (hload hc).1 hdeep⟩, ⟨hcompile, hi, hmodule, htooDeep⟩,
    hresolve, before, text, hturn, hlibrary, fun hexpressible => (hunread hexpressible).1⟩

/-- A sum is compiled without errors and cannot be loaded: the reader of its bytes gives up. -/
theorem sum_not_loaded :
    let c := Compilation.ofUnits "T" [⟨"T.gen", Ones.text 1100⟩] [] .library
    c.hasErrors = false ∧ c.emit = .ok c.image.encode ∧
      Hierarchy.loadBytes c.image.encode c.references = .error (.decode .tooDeep) ∧
      execute c.image.encode c.references {} = .error (.load (.decode .tooDeep)) ∧
      DecodeError.message .tooDeep = "invalid module image: depth limit exceeded" := by
  intro c
  have hn : Pack.maxDepth < 1100 := by decide
  obtain ⟨hok, hi, hdeep⟩ :=
    Ones.tooDeep_text "T" "T.gen" .library (by decide) (by decide) rfl hn
  have hload := Compilation.loadBytes_of_tooDeep hi hdeep
  refine ⟨hok, Compilation.emit_of_ok hok, hload, ?_, by decide⟩
  rw [execute, hload]
  rfl

end GenLang
