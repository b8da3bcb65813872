import GenLang.Proofs.Image.Bytes
import GenLang.Image.Encoding

/-!
# Values that do not nest too deep

A value is read back unchanged if it is within the limits of the format and the arrays and maps in
it nest no deeper than the reader follows them. The records and variants in it are then read from
what they were written as.
-/

namespace GenLang

namespace Pack

/-! ## Nesting -/

mutual

/-- How deep arrays and maps nest, as the reader counts: a map of one entry adds nothing. -/
def nesting : Pack → Nat
  | array items => nestingAll items + 1
  | map entries => nestingEntries entries + if entries.length = 1 then 0 else 1
  | _ => 0

def nestingAll : List Pack → Nat
  | [] => 0
  | p :: ps => Nat.max p.nesting (nestingAll ps)

def nestingEntries : List (Pack × Pack) → Nat
  | [] => 0
  | (k, v) :: rest => Nat.max (Nat.max k.nesting v.nesting) (nestingEntries rest)

end

theorem nesting_le_nestingAll {p : Pack} {ps : List Pack} (hp : p ∈ ps) :
    p.nesting ≤ nestingAll ps := by
  induction ps with
  | nil => cases hp
  | cons q ps ih =>
    rw [nestingAll]
    rcases List.mem_cons.1 hp with rfl | hp
    · exact Nat.le_max_left _ _
    · exact (ih hp).trans (Nat.le_max_right _ _)

theorem nesting_le_nestingEntries {e : Pack × Pack} {entries : List (Pack × Pack)}
    (he : e ∈ entries) :
    e.1.nesting ≤ nestingEntries entries ∧ e.2.nesting ≤ nestingEntries entries := by
  induction entries with
  | nil => cases he
  | cons f entries ih =>
    obtain ⟨k, v⟩ := f
    rw [nestingEntries]
    rcases List.mem_cons.1 he with rfl | he
    · have hfirst := Nat.le_max_left (Nat.max k.nesting v.nesting) (nestingEntries entries)
      exact ⟨(Nat.le_max_left _ _).trans hfirst, (Nat.le_max_right _ _).trans hfirst⟩
    · obtain ⟨hk, hv⟩ := ih he
      exact ⟨hk.trans (Nat.le_max_right _ _), hv.trans (Nat.le_max_right _ _)⟩

theorem nesting_lt_array {p : Pack} {items : List Pack} (hp : p ∈ items) :
    p.nesting < (array items).nesting :=
  Nat.lt_succ_of_le (nesting_le_nestingAll hp)

theorem nesting_le_tagged (name : String) (p : Pack) : p.nesting ≤ (tagged name p).nesting :=
  (nesting_le_nestingEntries (e := (str name, p)) List.mem_cons_self).2

theorem nesting_lt_record {p : Pack} {fields : List (String × Pack)} (hp : p ∈ fields.map (·.2))
    (hlength : fields.length ≠ 1) : p.nesting < (record fields).nesting := by
  obtain ⟨f, hf, rfl⟩ := List.mem_map.1 hp
  have hentry := (nesting_le_nestingEntries
    (List.mem_map_of_mem (f := fun f : String × Pack => (str f.1, f.2)) hf)).2
  rw [record, nesting, if_neg (by rwa [List.length_map])]
  exact Nat.lt_succ_of_le hentry

/-! ## Sizes -/

theorem length_writeInt_pos (n : Int) : 0 < (writeInt n).length := by
  unfold writeInt
  dsimp only
  split_ifs <;> exact Nat.succ_pos _

theorem length_strHead_pos (n : Nat) : 0 < (strHead n).length := by
  unfold strHead
  split_ifs <;> exact Nat.succ_pos _

theorem length_binHead_pos (n : Nat) : 0 < (binHead n).length := by
  unfold binHead
  split_ifs <;> exact Nat.succ_pos _

theorem length_arrayHead_pos (n : Nat) : 0 < (arrayHead n).length := by
  unfold arrayHead
  split_ifs <;> exact Nat.succ_pos _

theorem length_mapHead_pos (n : Nat) : 0 < (mapHead n).length := by
  unfold mapHead
  split_ifs <;> exact Nat.succ_pos _

/-- Every value takes a byte at least. -/
theorem length_write_pos (p : Pack) : 0 < p.write.length := by
  cases p with
  | nil => exact Nat.one_pos
  | bool b => cases b <;> exact Nat.one_pos
  | int n => exact length_writeInt_pos n
  | float x => exact Nat.succ_pos _
  | str s =>
    rw [write, List.length_append]
    exact Nat.add_pos_left (length_strHead_pos _) _
  | bin b =>
    rw [write, List.length_append]
    exact Nat.add_pos_left (length_binHead_pos _) _
  | array items =>
    rw [write, List.length_append]
    exact Nat.add_pos_left (length_arrayHead_pos _) _
  | map entries =>
    rw [write, List.length_append]
    exact Nat.add_pos_left (length_mapHead_pos _) _
  | ext tag b => exact Nat.succ_pos _

/-- A container is longer than what is in it. -/
theorem length_write_array {p : Pack} {items : List Pack} (hp : p ∈ items) :
    p.write.length < (array items).write.length := by
  have hhead := length_arrayHead_pos items.length
  have hitem := (List.sublist_flatten_of_mem (List.mem_map_of_mem (f := write) hp)).length_le
  rw [← List.flatMap_def, ← writeAll_eq_flatMap] at hitem
  rw [write, List.length_append]
  omega

theorem length_write_map {e : Pack × Pack} {entries : List (Pack × Pack)} (he : e ∈ entries) :
    e.1.write.length < (map entries).write.length ∧
      e.2.write.length < (map entries).write.length := by
  have hhead := length_mapHead_pos entries.length
  have hentry := (List.sublist_flatten_of_mem
    (List.mem_map_of_mem (f := fun e : Pack × Pack => write e.1 ++ write e.2) he)).length_le
  rw [← List.flatMap_def, ← writeEntries_eq_flatMap, List.length_append] at hentry
  rw [write, List.length_append]
  omega

theorem length_write_tagged (name : String) (p : Pack) :
    p.write.length < (tagged name p).write.length :=
  (length_write_map (e := (str name, p)) List.mem_cons_self).2

theorem length_write_record {p : Pack} {fields : List (String × Pack)}
    (hp : p ∈ fields.map (·.2)) : p.write.length < (record fields).write.length := by
  obtain ⟨f, hf, rfl⟩ := List.mem_map.1 hp
  exact (length_write_map (List.mem_map_of_mem (f := fun f : String × Pack => (str f.1, f.2)) hf)).2

theorem isWritable_tagged (name : String) (p : Pack) :
    (tagged name p).isWritable = ((str name).isWritable && p.isWritable) := by
  simp [tagged, isWritable, haveWritable]

theorem isWritable_record (fields : List (String × Pack)) : (record fields).isWritable = true ↔
    fields.length < 2 ^ 32 ∧
      (fields.all fun f => (str f.1).isWritable && f.2.isWritable) = true := by
  rw [record, isWritable, haveWritable_eq_all, List.length_map, List.all_map, Bool.and_eq_true,
    decide_eq_true_iff]
  rfl

/-! ## Reading back -/

theorem mapM_eq_self {ε α : Type} {f : α → Except ε α} {as : List α}
    (h : ∀ a ∈ as, f a = .ok a) : as.mapM f = .ok as := by
  induction as with
  | nil => rfl
  | cons a as ih =>
    rw [List.mapM_cons, h a List.mem_cons_self, ih fun b hb => h b (List.mem_cons_of_mem a hb)]
    rfl

/-- A value within the reader's limits is read as it was written. -/
theorem reread_self {size depth : Nat} {p : Pack} (hsize : p.write.length ≤ size)
    (hdepth : p.nesting ≤ depth) : reread size depth p = .ok p := by
  induction size generalizing depth p with
  | zero => exact absurd (length_write_pos p) (by omega)
  | succ size ih =>
    cases p with
    | array items =>
      rw [nesting] at hdepth
      obtain ⟨depth, rfl⟩ : ∃ d, depth = d + 1 := ⟨depth - 1, by omega⟩
      have hitems : items.mapM (reread size depth) = .ok items := by
        refine mapM_eq_self fun p hp => ih ?_ ?_
        · have := length_write_array hp
          omega
        · have := nesting_le_nestingAll hp
          omega
      show (items.mapM (reread size depth)).map array = _
      rw [hitems]
      rfl
    | map entries =>
      rw [nesting] at hdepth
      have hentries {d : Nat} (hd : nestingEntries entries ≤ d) :
          entries.mapM (rereadEntry (reread size d)) = .ok entries := by
        refine mapM_eq_self fun e he => ?_
        obtain ⟨hk, hv⟩ := length_write_map he
        obtain ⟨hk', hv'⟩ := nesting_le_nestingEntries he
        rw [rereadEntry, ih (by omega) (hk'.trans hd), ih (by omega) (hv'.trans hd)]
        rfl
      rw [reread_map]
      -- A map with one entry takes no depth of its own, in what is nested as in what is read.
      by_cases hone : entries.length = 1
      · rw [if_pos hone] at hdepth ⊢
        rw [hentries hdepth]
        rfl
      · rw [if_neg hone] at hdepth ⊢
        obtain ⟨depth, rfl⟩ : ∃ d, depth = d + 1 := ⟨depth - 1, by omega⟩
        dsimp only
        rw [hentries (by omega)]
        rfl
    | _ => rfl

theorem exists_of_nestingAll {ps : List Pack} {n : Nat} (h : n < nestingAll ps) :
    ∃ p ∈ ps, n < p.nesting := by
  induction ps with
  | nil => exact absurd h (Nat.not_lt_zero n)
  | cons p ps ih =>
    rw [nestingAll] at h
    rcases lt_max_iff.1 h with h | h
    · exact ⟨p, List.mem_cons_self, h⟩
    · obtain ⟨q, hq, hdeep⟩ := ih h
      exact ⟨q, List.mem_cons_of_mem p hq, hdeep⟩

theorem exists_of_nestingEntries {entries : List (Pack × Pack)} {n : Nat}
    (h : n < nestingEntries entries) : ∃ e ∈ entries, n < e.1.nesting ∨ n < e.2.nesting := by
  induction entries with
  | nil => exact absurd h (Nat.not_lt_zero n)
  | cons e entries ih =>
    obtain ⟨k, v⟩ := e
    rw [nestingEntries] at h
    rcases lt_max_iff.1 h with h | h
    · exact ⟨(k, v), List.mem_cons_self, lt_max_iff.1 h⟩
    · obtain ⟨e, he, hdeep⟩ := ih h
      exact ⟨e, List.mem_cons_of_mem _ he, hdeep⟩

/-- Where every item is read back or fails in one way, and one fails, all of them fail so. -/
theorem mapM_eq_error {ε α : Type} {f : α → Except ε α} {e : ε} {as : List α} {a : α} (ha : a ∈ as)
    (h : f a = .error e) (hall : ∀ b ∈ as, f b = .ok b ∨ f b = .error e) :
    as.mapM f = .error e := by
  induction as with
  | nil => exact absurd ha List.not_mem_nil
  | cons b as ih =>
    rw [List.mapM_cons]
    rcases hall b List.mem_cons_self with hb | hb
    · rcases List.mem_cons.1 ha with rfl | ha
      · rw [hb] at h
        cases h
      · rw [hb, ih ha fun c hc => hall c (List.mem_cons_of_mem b hc)]
        rfl
    · rw [hb]
      rfl

/-- The reader gives a value up that nests deeper than it follows, and for that reason. -/
theorem reread_eq_tooDeep {size depth : Nat} {p : Pack} (hsize : p.write.length ≤ size)
    (h : depth < p.nesting) : reread size depth p = .error .tooDeep := by
  induction size generalizing depth p with
  | zero => exact absurd (length_write_pos p) (by omega)
  | succ size ih =>
    -- What is within the limits is read back, so all that can be wrong with it is its depth.
    have hread {d : Nat} {q : Pack} (hq : q.write.length ≤ size) :
        reread size d q = .ok q ∨ reread size d q = .error .tooDeep := by
      rcases Nat.lt_or_ge d q.nesting with hdeep | hshallow
      · exact .inr (ih hq hdeep)
      · exact .inl (reread_self hq hshallow)
    cases p with
    | array items =>
      rw [nesting] at h
      cases depth with
      | zero => rfl
      | succ depth =>
        have hlength {q : Pack} (hq : q ∈ items) : q.write.length ≤ size := by
          have := length_write_array hq
          omega
        -- one item is too deep, and fails all of them
        obtain ⟨q, hq, hdeep⟩ := exists_of_nestingAll (Nat.lt_of_succ_lt_succ h)
        show (items.mapM (reread size depth)).map array = _
        rw [mapM_eq_error hq (ih (hlength hq) hdeep) fun q hq => hread (hlength hq)]
        rfl
    | map entries =>
      rw [nesting] at h
      have hentries {d : Nat} (hd : d < nestingEntries entries) :
          entries.mapM (rereadEntry (reread size d)) = .error .tooDeep := by
        have hlength {e : Pack × Pack} (he : e ∈ entries) :
            e.1.write.length ≤ size ∧ e.2.write.length ≤ size := by
          obtain ⟨hk, hv⟩ := length_write_map he
          omega
        obtain ⟨e, he, hdeep⟩ := exists_of_nestingEntries hd
        refine mapM_eq_error he ?_ fun e he => ?_
        · obtain ⟨hk, hv⟩ := hlength he
          unfold rereadEntry
          rcases hdeep with hdeep | hdeep
          · rw [ih hk hdeep]
            rfl
          · rw [ih hv hdeep]
            rcases hread hk (d := d) with hk | hk <;> rw [hk] <;> rfl
        · obtain ⟨hk, hv⟩ := hlength he
          unfold rereadEntry
          rcases hread hk (d := d) with hk | hk <;> rcases hread hv (d := d) with hv | hv <;>
            rw [hk, hv]
          · exact .inl rfl
          all_goals exact .inr rfl
      rw [reread_map]
      by_cases hone : entries.length = 1
      · rw [if_pos hone] at h ⊢
        rw [hentries h]
        rfl
      · rw [if_neg hone] at h ⊢
        cases depth with
        | zero => rfl
        | succ depth =>
          dsimp only
          rw [hentries (Nat.lt_of_succ_lt_succ h)]
          rfl
    | _ => exact absurd h (Nat.not_lt_zero depth)

/-- The bytes of a value give the value. -/
theorem ofBytes_write_self {p : Pack} (hwritable : p.isWritable)
    (hnesting : p.nesting ≤ maxDepth) : ofBytes p.write = .ok p := by
  rw [ofBytes_write hwritable, reread_self (Nat.le_refl _) hnesting]

/-- They do not if the value nests too deep, and then that is what is wrong with them. -/
theorem ofBytes_write_tooDeep {p : Pack} (hwritable : p.isWritable)
    (hnesting : maxDepth < p.nesting) : ofBytes p.write = .error .tooDeep := by
  rw [ofBytes_write hwritable, reread_eq_tooDeep (Nat.le_refl _) hnesting]

/-! ## Records and variants -/

theorem variant?_tagged {names : List String} {name : String} {i : Nat} {p : Pack}
    (h : names.findIdx? (· == name) = some i) :
    variant? names (tagged name p) = some (i, some p) := by
  show ((names.findIdx? (· == name)).map (·, some p)) = _
  rw [h]
  rfl

theorem variant?_str {names : List String} {name : String} {i : Nat}
    (h : names.findIdx? (· == name) = some i) : variant? names (str name) = some (i, none) := by
  show ((names.findIdx? (· == name)).map (·, none)) = _
  rw [h]
  rfl

theorem mapM_eq_some {α β : Type} {f : α → Option β} {g : α → β} {as : List α}
    (h : ∀ a ∈ as, f a = some (g a)) : as.mapM f = some (as.map g) := by
  induction as with
  | nil => rfl
  | cons a as ih =>
    rw [List.mapM_cons, h a List.mem_cons_self, ih fun b hb => h b (List.mem_cons_of_mem a hb)]
    rfl

/-- A list filtered by the place that each item knows it has. -/
theorem filter_place {α : Type} {g : α → Option Nat} {as : List α} {first i : Nat}
    (hg : ∀ j (hj : j < as.length), g as[j] = some (first + j)) (hi : i < as.length) :
    (as.filter fun a => g a == some (first + i)) = [as[i]] := by
  induction as generalizing first i with
  | nil => exact absurd hi (Nat.not_lt_zero i)
  | cons a as ih =>
    have ha : g a = some first := hg 0 (Nat.succ_pos _)
    have hlater : ∀ j (hj : j < as.length), g as[j] = some (first + 1 + j) := by
      intro j hj
      have hnext := hg (j + 1) (Nat.succ_lt_succ hj)
      rw [List.getElem_cons_succ] at hnext
      rw [hnext]
      congr 1
      omega
    cases i with
    | zero =>
      -- nothing behind the item claims its place
      have hnone : (as.filter fun b => g b == some (first + 0)) = [] := by
        rw [List.filter_eq_nil_iff]
        intro b hb
        obtain ⟨j, hj, rfl⟩ := List.getElem_of_mem hb
        rw [hlater j hj, beq_iff_eq, Option.some.injEq]
        omega
      rw [List.filter_cons, ha, hnone]
      exact if_pos (beq_self_eq_true (some first))
    | succ i =>
      have hne : (some first == some (first + (i + 1))) = false := by
        rw [beq_eq_false_iff_ne, ne_eq, Option.some.injEq]
        omega
      rw [List.filter_cons, ha, hne, show first + (i + 1) = first + 1 + i by omega]
      exact ih hlater (Nat.lt_of_succ_lt_succ hi)

theorem fields?_map {names : List String} (hnames : names.Nodup) {entries : List (Pack × Pack)}
    (hkeys : entries.map (·.1) = names.map str) :
    fields? names (map entries) = some ((entries.map (·.2)).map some) := by
  have hlength : entries.length = names.length := by
    rw [← List.length_map (·.1), hkeys, List.length_map]
  have hname : ∀ e ∈ entries, ∃ s, e.1 = str s := by
    intro e he
    have hmem := List.mem_map_of_mem (f := (·.1)) he
    rw [hkeys] at hmem
    obtain ⟨s, -, hs⟩ := List.mem_map.1 hmem
    exact ⟨s, hs.symm⟩
  -- The keys are the names in their order, so a key is found where it stands.
  have hplace : ∀ j (hj : j < entries.length),
      nameIndex? names entries[j].1 = some (0 + j) := by
    intro j hj
    have hlt : j < names.length := by omega
    have hkey : entries[j].1 = str names[j] := by
      have := List.getElem_of_eq hkeys (i := j) (by rwa [List.length_map])
      simpa using this
    rw [hkey, nameIndex?, List.findIdx?_eq_some_iff_getElem]
    refine ⟨by omega, by simp, fun k hk => ?_⟩
    rw [Bool.not_eq_true, beq_eq_false_iff_ne]
    intro heq
    have hsame := (hnames.getElem_inj_iff).1 heq
    omega
  -- each field is therefore met once, neither missing nor doubled
  have hentry : ∀ i ∈ List.range names.length,
      entry? names i entries = some (entries.map (·.2))[i]? := by
    intro i hi
    rw [List.mem_range] at hi
    have hfilter := filter_place (g := fun e : Pack × Pack => nameIndex? names e.1) hplace
      (i := i) (by omega)
    rw [Nat.zero_add] at hfilter
    unfold entry?
    rw [hfilter]
    simp [hlength, hi]
  have hall : (entries.all fun e => isName e.1) = true := by
    rw [List.all_eq_true]
    intro e he
    obtain ⟨s, hs⟩ := hname e he
    rw [hs]
    rfl
  rw [fields?, if_pos hall, mapM_eq_some hentry]
  congr 1
  apply List.ext_getElem
  · simp [hlength]
  · intro i hi hi'
    have hlt : i < entries.length := by simpa using hi'
    simp [hlt]

theorem fields?_record {names : List String} {fields : List (String × Pack)}
    (hfields : fields.map (·.1) = names) (hnames : names.Nodup) :
    fields? names (record fields) = some (fields.map fun f => some f.2) := by
  have hkeys : (fields.map fun f => (str f.1, f.2)).map (·.1) = names.map str := by
    rw [← hfields, List.map_map, List.map_map]
    rfl
  rw [record, fields?_map hnames hkeys, List.map_map, List.map_map]
  rfl

/-- A field that is there is read as its value. -/
theorem required_eq {α : Type} {f : Pack → Option α} {p : Pack} {a : α} (h : f p = some a) :
    required f (some p) = some a :=
  h

theorem required_str (s : String) : required toString? (some (str s)) = some s :=
  rfl

variable {α : Type} {f : α → Pack} {g : Pack → Option α}

theorem bind_tagged {names : List String} {name : String} {i : Nat} {p : Pack}
    (h : names.findIdx? (· == name) = some i) (k : Nat × Option Pack → Option α) :
    (variant? names (tagged name p) >>= k) = k (i, some p) := by
  rw [variant?_tagged h]
  rfl

theorem bind_record {names : List String} {fields : List (String × Pack)}
    (hfields : fields.map (·.1) = names) (hnames : names.Nodup)
    (k : List (Option Pack) → Option α) :
    (fields? names (record fields) >>= k) = k (fields.map fun f => some f.2) := by
  rw [fields?_record hfields hnames]
  rfl

/-- An option is told from its absence, if nothing is written as nil. -/
theorem optional_ofOption {a : Option α} (hg : ∀ b ∈ a, g (f b) = some b)
    (hf : ∀ b, f b ≠ nil) : optional g (some (ofOption f a)) = some a := by
  cases a with
  | none => rfl
  | some a =>
    have hne := hf a
    have hsome : optional g (some (f a)) = (g (f a)).map some := by
      cases h : f a <;> first | rfl | exact absurd h hne
    show optional g (some (f a)) = _
    rw [hsome, hg a rfl]
    rfl

theorem toList?_ofList {as : List α} (hg : ∀ a ∈ as, g (f a) = some a) :
    toList? g (ofList f as) = some as := by
  show (as.map f).mapM g = _
  induction as with
  | nil => rfl
  | cons a as ih =>
    rw [List.map_cons, List.mapM_cons, hg a List.mem_cons_self,
      ih fun b hb => hg b (List.mem_cons_of_mem a hb)]
    rfl

theorem toNat32?_ofNat {n : Nat} (hn : n < UInt32.size) : toNat32? (ofNat n) = some n := by
  have hrange : 0 ≤ (n : Int) ∧ (n : Int) < UInt32.size :=
    ⟨Int.natCast_nonneg n, Int.ofNat_lt.2 hn⟩
  rw [ofNat, toNat32?, if_pos hrange, Int.toNat_natCast]

/-- How a number is written does not matter, as long as it is read. -/
@[elab_as_elim]
theorem ofNat_elim {motive : Pack → Prop} {n : Nat} (hn : n < UInt32.size)
    (h : ∀ p, toNat32? p = some n → motive p) : motive (ofNat n) :=
  h _ (toNat32?_ofNat hn)

theorem toInt64?_toInt (n : Int64) : toInt64? (int n.toInt) = some n := by
  rw [toInt64?, if_pos ⟨n.minValue_le_toInt, n.toInt_le⟩, Int64.ofInt_toInt]

end Pack

end GenLang
