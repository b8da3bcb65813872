import GenLang.Proofs.Caching.Use
import GenLang.Generator

/-!
# What a cache of generators holds

A cache of capacity `n` holds the last `n` sources, told apart by their canonical keys, for which a
call gave generators. So whether a call compiles its source can be told from the calls before it.
-/

namespace GenLang

/-- The digest of a canonical key. -/
def CacheKey.ofCanonical (key : String) : CacheKey :=
  ⟨Sha256.digest key.toUTF8.data.toList⟩

/-! ## Calls -/

namespace GeneratorCompiler

variable {s : GeneratorCompiler} {libraries : References}

/-- What a call can come to: the result, and the compiler behind it. -/
inductive Outcome (s : GeneratorCompiler) (source : String) (libraries : References)
    (patience : Patience) : Except StageError (List Generator × Patience) → GeneratorCompiler →
    Prop where
  | blank (h : Text.allBlank source) : Outcome s source libraries patience
      (.error (.inputMissing .generator)) s
  | found (h : Text.allBlank source = false) {v : List Generator}
      (hfound : s.cache.entries.lookup (CacheKey.ofSource source) = some v) :
      Outcome s source libraries patience (.ok (v, patience))
        { s with cache := (s.cache.get (CacheKey.ofSource source)).2 }
  | built (h : Text.allBlank source = false)
      (hmiss : s.cache.entries.lookup (CacheKey.ofSource source) = none) {v : List Generator}
      {left : Patience} (hbuild : (s.build source libraries patience).1 = .ok (v, left)) :
      Outcome s source libraries patience (.ok (v, left))
        { s with
          compileCount := s.compileCount + 1
          cache := (s.cache.insert (CacheKey.ofSource source) v).2 }
  | failed (h : Text.allBlank source = false)
      (hmiss : s.cache.entries.lookup (CacheKey.ofSource source) = none) {e : StageError}
      (hbuild : (s.build source libraries patience).1 = .error e) :
      Outcome s source libraries patience (.error e)
        { s with compileCount := s.compileCount + 1 }

theorem outcome_compile (s : GeneratorCompiler) (source : String) (libraries : References)
    (patience : Patience) : Outcome s source libraries patience
      (s.compile source libraries patience).1 (s.compile source libraries patience).2.1 := by
  by_cases hblank : Text.allBlank source
  · rw [compile, if_pos hblank]
    exact .blank hblank
  · have hsome : Text.allBlank source = false := Bool.eq_false_iff.2 hblank
    rw [compile, if_neg hblank]
    dsimp only
    cases hlookup : s.cache.entries.lookup (CacheKey.ofSource source) with
    | some v =>
      have hget : s.cache.get (CacheKey.ofSource source) =
          (some v, (s.cache.get (CacheKey.ofSource source)).2) := by
        rw [Cache.get, hlookup]
      rw [hget]
      exact .found hsome hlookup
    | none =>
      have hget : s.cache.get (CacheKey.ofSource source) = (none, s.cache) := by
        rw [Cache.get, hlookup]
      -- how often was compiled before does not matter for what is built
      have hsame : ({ s with compileCount := s.compileCount + 1 } : GeneratorCompiler).build source
          libraries patience = s.build source libraries patience := rfl
      rw [hget]
      dsimp only
      rw [hsame]
      cases hbuild : s.build source libraries patience with
      | mk result log =>
        cases result with
        | ok built => exact .built hsome hlookup (by rw [hbuild])
        | error e => exact .failed hsome hlookup (by rw [hbuild])

/-! ## Sequences of calls -/

/-- What is told of a call: the key of its source, whether the source was compiled, and the result.
-/
structure Record where
  key : String
  compiled : Bool
  result : Except StageError (List Generator)

structure Call where
  source : String
  patience : Patience

/-- The compiler after some calls, and what is told of them. Calls and records begin with the
latest. -/
def after (s : GeneratorCompiler) (libraries : References) :
    List Call → GeneratorCompiler × List Record
  | [] => (s, [])
  | call :: earlier =>
    let (t, records) := s.after libraries earlier
    let (result, u, _) := t.compile call.source libraries call.patience
    (u, ⟨canonicalKey call.source, u.compileCount != t.compileCount, result.map (·.1)⟩ :: records)

/-- The last `n` keys for which there were generators, the latest first. -/
def recentKeys (n : Nat) (records : List Record) : List String :=
  ((records.filter (·.result.isOk)).map (·.key)).eraseDups.take n

/-- The result of the last call that compiled a source of a key. -/
def lastBuilt (records : List Record) (key : String) :
    Option (Except StageError (List Generator)) :=
  (records.find? fun r => r.compiled && r.key == key).map (·.result)

/-- What a cache of capacity `n` holds: entries of the recent keys, in their order, each with what
was last compiled for its key. -/
structure Recalls (n : Nat) (records : List Record) (c : Cache (List Generator)) : Prop where
  inStep : c.InStep
  capacity : c.capacity = n
  keys : c.keys.reverse = (recentKeys n records).map CacheKey.ofCanonical
  stored : ∀ e ∈ c.entries, ∃ key, CacheKey.ofCanonical key = e.1 ∧
    lastBuilt records key = some (.ok e.2)

variable {n : Nat} {records : List Record} {c : Cache (List Generator)} {r : Record} {key : String}

theorem recentKeys_ok (h : r.result.isOk) :
    recentKeys n (r :: records) = touch n r.key (recentKeys n records) := by
  have hfilter : (r :: records).filter (·.result.isOk) = r :: records.filter (·.result.isOk) :=
    List.filter_cons_of_pos h
  rw [recentKeys, hfilter, List.map_cons, take_eraseDups_cons, recentKeys]

theorem recentKeys_error (h : r.result.isOk = false) :
    recentKeys n (r :: records) = recentKeys n records := by
  have hfilter : (r :: records).filter (·.result.isOk) = records.filter (·.result.isOk) :=
    List.filter_cons_of_neg (by rw [h]; exact Bool.false_ne_true)
  rw [recentKeys, hfilter, recentKeys]

theorem mem_of_mem_recentKeys (h : key ∈ recentKeys n records) : ∃ r ∈ records, r.key = key := by
  have hkey := List.mem_eraseDups.1 (List.mem_of_mem_take h)
  obtain ⟨r, hr, rfl⟩ := List.mem_map.1 hkey
  exact ⟨r, (List.mem_filter.1 hr).1, rfl⟩

theorem mem_of_lastBuilt {result : Except StageError (List Generator)}
    (h : lastBuilt records key = some result) : ∃ r ∈ records, r.key = key := by
  obtain ⟨r, hr, -⟩ := Option.map_eq_some_iff.1 h
  have hkey := List.find?_some hr
  simp only [Bool.and_eq_true, beq_iff_eq] at hkey
  exact ⟨r, List.mem_of_find?_eq_some hr, hkey.2⟩

theorem lastBuilt_compiled (h : r.compiled) : lastBuilt (r :: records) r.key = some r.result := by
  rw [lastBuilt, List.find?_cons, h, beq_self_eq_true]
  rfl

theorem lastBuilt_other (h : r.compiled = false ∨ r.key ≠ key) :
    lastBuilt (r :: records) key = lastBuilt records key := by
  have hskip : (r.compiled && r.key == key) = false := by
    rcases h with h | h
    · rw [h, Bool.false_and]
    · rw [beq_false_of_ne h, Bool.and_false]
  rw [lastBuilt, List.find?_cons, hskip, lastBuilt]

namespace Recalls

/-- What is stored stays what was last compiled, behind a call that compiled nothing or another
source. -/
theorem stored_cons (h : Recalls n records c) {e : CacheKey × List Generator} (he : e ∈ c.entries)
    (hr : ∀ key, CacheKey.ofCanonical key = e.1 → r.compiled = false ∨ r.key ≠ key) :
    ∃ key, CacheKey.ofCanonical key = e.1 ∧ lastBuilt (r :: records) key = some (.ok e.2) := by
  obtain ⟨key, hkey, hlast⟩ := h.stored e he
  refine ⟨key, hkey, ?_⟩
  rw [lastBuilt_other (hr key hkey), hlast]

variable (h : Recalls n records c)
  (hdigest : ∀ r ∈ records, CacheKey.ofCanonical r.key = CacheKey.ofCanonical key → r.key = key)

include h hdigest

theorem mem_keys_iff : CacheKey.ofCanonical key ∈ c.keys ↔ key ∈ recentKeys n records := by
  rw [← List.mem_reverse, h.keys, List.mem_map]
  constructor
  · rintro ⟨other, hother, heq⟩
    obtain ⟨r, hr, rfl⟩ := mem_of_mem_recentKeys hother
    exact hdigest r hr heq ▸ hother
  · exact fun hkey => ⟨key, hkey, rfl⟩

theorem lastBuilt_of_lookup {v : List Generator}
    (hv : c.entries.lookup (CacheKey.ofCanonical key) = some v) :
    lastBuilt records key = some (.ok v) := by
  obtain ⟨other, heq, hlast⟩ := h.stored _ (Cache.mem_of_lookup hv)
  obtain ⟨r, hr, rfl⟩ := mem_of_lastBuilt hlast
  exact hdigest r hr heq ▸ hlast

theorem keys_touch : touch n (CacheKey.ofCanonical key) c.keys.reverse =
    (touch n key (recentKeys n records)).map CacheKey.ofCanonical := by
  rw [h.keys, map_touch]
  intro other hother heq
  obtain ⟨r, hr, rfl⟩ := mem_of_mem_recentKeys hother
  exact hdigest r hr heq

end Recalls

/-- A call keeps what is known of the cache. -/
theorem Recalls.compile {source : String} {patience : Patience} (h : Recalls n records s.cache)
    (hdigest : ∀ r ∈ records, CacheKey.ofCanonical r.key = CacheKey.ofSource source →
      r.key = canonicalKey source) :
    Recalls n
      (⟨canonicalKey source,
        (s.compile source libraries patience).2.1.compileCount != s.compileCount,
        (s.compile source libraries patience).1.map (·.1)⟩ :: records)
      (s.compile source libraries patience).2.1.cache := by
  have hcall := outcome_compile s source libraries patience
  -- an entry that is there is not of a source that is not
  have hother (hmiss : s.cache.entries.lookup (CacheKey.ofSource source) = none)
      {e : CacheKey × List Generator} (he : e ∈ s.cache.entries) {key : String}
      (hkey : CacheKey.ofCanonical key = e.1) : canonicalKey source ≠ key := by
    rintro rfl
    exact Cache.lookup_eq_none_iff.1 hmiss (List.mem_map.2 ⟨e, he, hkey.symm⟩)
  generalize (s.compile source libraries patience).1 = result at *
  generalize (s.compile source libraries patience).2.1 = t at *
  cases hcall with
  | blank hblank =>
    refine ⟨h.inStep, h.capacity, ?_,
      fun e he => h.stored_cons he fun _ _ => .inl (bne_self_eq_false _)⟩
    rw [recentKeys_error rfl, h.keys]
  | found hblank hfound =>
    refine ⟨h.inStep.get _, ?_, ?_, fun e he => ?_⟩
    · rw [Cache.capacity_get, h.capacity]
    · rw [recentKeys_ok rfl, h.inStep.keys_get hfound, h.capacity]
      exact h.keys_touch hdigest
    · rw [Cache.entries_get] at he
      exact h.stored_cons he fun _ _ => .inl (bne_self_eq_false _)
  | built hblank hmiss hbuild =>
    have hcompiled : (s.compileCount + 1 != s.compileCount) = true := by simp
    refine ⟨h.inStep.insert _ _, ?_, ?_, fun e he => ?_⟩
    · rw [Cache.capacity_insert, h.capacity]
    · rw [recentKeys_ok rfl, h.inStep.keys_insert, h.capacity]
      exact h.keys_touch hdigest
    · rcases Cache.mem_or_eq_of_mem_insert he with he | rfl
      · exact h.stored_cons he fun _ hkey => .inr (hother hmiss he hkey)
      · exact ⟨canonicalKey source, rfl, lastBuilt_compiled hcompiled⟩
  | failed hblank hmiss hbuild =>
    refine ⟨h.inStep, h.capacity, ?_,
      fun e he => h.stored_cons he fun _ hkey => .inr (hother hmiss he hkey)⟩
    rw [recentKeys_error rfl, h.keys]

theorem keys_after (s : GeneratorCompiler) (libraries : References) (calls : List Call) :
    (s.after libraries calls).2.map (·.key) = calls.map fun call => canonicalKey call.source := by
  induction calls with
  | nil => rfl
  | cons call earlier ih => exact congrArg (canonicalKey call.source :: ·) ih

/-- No two of some sources have the same digest unless they have the same key. -/
def DigestsTell (sources : List String) : Prop :=
  ∀ a ∈ sources, ∀ b ∈ sources, CacheKey.ofSource a = CacheKey.ofSource b →
    canonicalKey a = canonicalKey b

instance (sources : List String) : Decidable (DigestsTell sources) :=
  inferInstanceAs (Decidable (∀ a ∈ sources, ∀ b ∈ sources,
    CacheKey.ofSource a = CacheKey.ofSource b → canonicalKey a = canonicalKey b))

theorem DigestsTell.key_eq {source : String} {calls : List Call}
    (h : DigestsTell (source :: calls.map (·.source))) :
    ∀ r ∈ (s.after libraries calls).2, CacheKey.ofCanonical r.key = CacheKey.ofSource source →
      r.key = canonicalKey source := by
  intro r hr heq
  have hkey := List.mem_map_of_mem (f := Record.key) hr
  rw [keys_after] at hkey
  obtain ⟨call, hcall, hkey⟩ := List.mem_map.1 hkey
  have hsource : call.source ∈ source :: calls.map (·.source) :=
    List.mem_cons_of_mem _ (List.mem_map_of_mem hcall)
  rw [← hkey] at heq ⊢
  exact h _ hsource _ List.mem_cons_self heq

/-- The cache of a compiler that is used for the first time recalls all its calls. -/
theorem recalls_after (hfresh : s.cache = { capacity := n }) {calls : List Call}
    (hdigests : DigestsTell (calls.map (·.source))) :
    Recalls n (s.after libraries calls).2 (s.after libraries calls).1.cache := by
  induction calls with
  | nil =>
    rw [after, hfresh]
    exact ⟨Cache.inStep_new n, rfl, by simp [Cache.keys, recentKeys],
      fun e he => absurd he List.not_mem_nil⟩
  | cons call earlier ih =>
    have hearlier : DigestsTell (earlier.map (·.source)) := fun a ha b hb =>
      hdigests a (List.mem_cons_of_mem _ ha) b (List.mem_cons_of_mem _ hb)
    exact (ih hearlier).compile hdigests.key_eq

/-- Whether a call compiles its source is told by the calls before it. It does not if the key of the
source is among the last for which there were generators, as many as the cache holds, and then gives
what was last compiled for the key; else it does. An error leaves the cache as it is. -/
theorem compile_recalls (hfresh : s.cache = { capacity := n }) (libraries : References)
    (calls : List Call) (source : String) (patience : Patience)
    (hdigests : DigestsTell (source :: calls.map (·.source))) :
    let (t, records) := s.after libraries calls
    let (result, u, _) := t.compile source libraries patience
    (Text.allBlank source = false →
      (canonicalKey source ∉ recentKeys n records →
        u.compileCount = t.compileCount + 1) ∧
      (canonicalKey source ∈ recentKeys n records →
        u.compileCount = t.compileCount ∧
          ∃ v, lastBuilt records (canonicalKey source) = some (.ok v) ∧
            result = .ok (v, patience))) ∧
    ∀ e, result = .error e → u.cache = t.cache := by
  have hearlier : DigestsTell (calls.map (·.source)) := fun a ha b hb =>
    hdigests a (List.mem_cons_of_mem _ ha) b (List.mem_cons_of_mem _ hb)
  have hrecalls : Recalls n (s.after libraries calls).2
      (s.after libraries calls).1.cache := recalls_after hfresh hearlier
  have hdigest : ∀ r ∈ (s.after libraries calls).2,
      CacheKey.ofCanonical r.key = CacheKey.ofSource source → r.key = canonicalKey source :=
    hdigests.key_eq
  dsimp only
  generalize (s.after libraries calls).1 = t at *
  generalize (s.after libraries calls).2 = records at *
  have hkeys : CacheKey.ofSource source ∈ t.cache.keys ↔
      canonicalKey source ∈ recentKeys n records := hrecalls.mem_keys_iff hdigest
  have hnone : t.cache.entries.lookup (CacheKey.ofSource source) = none ↔
      CacheKey.ofSource source ∉ t.cache.keys := hrecalls.inStep.lookup_eq_none_iff
  have hcall := outcome_compile t source libraries patience
  generalize (t.compile source libraries patience).1 = result at *
  generalize (t.compile source libraries patience).2.1 = u at *
  cases hcall with
  | blank hblank =>
    refine ⟨fun h => ?_, fun _ _ => rfl⟩
    rw [hblank] at h
    cases h
  | found hblank hfound =>
    have hrecent := hkeys.1 (hrecalls.inStep.mem_keys_of_lookup hfound)
    have hlast := hrecalls.lastBuilt_of_lookup hdigest hfound
    exact ⟨fun _ => ⟨fun h => absurd hrecent h, fun _ => ⟨rfl, _, hlast, rfl⟩⟩,
      fun e he => by cases he⟩
  | built hblank hmiss hbuild =>
    have hrecent := mt hkeys.2 (hnone.1 hmiss)
    exact ⟨fun _ => ⟨fun _ => rfl, fun h => absurd h hrecent⟩, fun e he => by cases he⟩
  | failed hblank hmiss hbuild =>
    have hrecent := mt hkeys.2 (hnone.1 hmiss)
    exact ⟨fun _ => ⟨fun _ => rfl, fun h => absurd h hrecent⟩, fun _ _ => rfl⟩

/-- The library that makes a class a generator. -/
def generationSources : List LibrarySource :=
  [.ofList [("Generation", some (Pack.utf8 "capability Generator { fn Execute(context); }"))]]

def generationLibraries : References :=
  (References.resolveToEnd generationSources).toOption.getD []

/-- A generator that does nothing. -/
def quiet (name : String) : String :=
  "type " ++ name ++ " : Generator { fn Execute(context) {} }"

/-- A compiler that holds one set of generators. -/
def single : GeneratorCompiler :=
  { cache := { capacity := 1 } }

/-- After one source and then another, the first again. -/
theorem compile_recalls_single :
    single.cache = { capacity := 1 } ∧ DigestsTell [quiet "A", quiet "B", quiet "A"] ∧
      let (t, records) := single.after generationLibraries [⟨quiet "B", none⟩, ⟨quiet "A", none⟩]
      let (result, u, _) := t.compile (quiet "A") generationLibraries none
      (Text.allBlank (quiet "A") = false →
        (canonicalKey (quiet "A") ∉ recentKeys 1 records →
          u.compileCount = t.compileCount + 1) ∧
        (canonicalKey (quiet "A") ∈ recentKeys 1 records →
          u.compileCount = t.compileCount ∧
            ∃ v, lastBuilt records (canonicalKey (quiet "A")) = some (.ok v) ∧
              result = .ok (v, none))) ∧
      ∀ e, result = .error e → u.cache = t.cache :=
  have hfresh : single.cache = { capacity := 1 } := rfl
  have hdigests : DigestsTell [quiet "A", quiet "B", quiet "A"] := by decide +kernel
  ⟨hfresh, hdigests, compile_recalls hfresh generationLibraries
    [⟨quiet "B", none⟩, ⟨quiet "A", none⟩] (quiet "A") none hdigests⟩

end GeneratorCompiler

end GenLang
