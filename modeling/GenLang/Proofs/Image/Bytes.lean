import GenLang.Proofs.Decimal.Bits
import GenLang.Image.Pack

/-!
# Reading what was written

MessagePack counts lengths in 32 bits and writes integers in 64 at most. A value within these limits
is read back as it was written, or not at all where it nests too deep.
-/

namespace GenLang

namespace Pack

/-! ## Values that can be written -/

mutual

/-- Whether the format has room for the lengths and integers of a value. -/
def isWritable : Pack → Bool
  | nil | bool _ | float _ => true
  | int n => -2 ^ 63 ≤ n && n < 2 ^ 64
  | str s => (utf8 s).length < 2 ^ 32
  | bin b | ext _ b => b.length < 2 ^ 32
  | array items => items.length < 2 ^ 32 && areWritable items
  | map entries => entries.length < 2 ^ 32 && haveWritable entries

def areWritable : List Pack → Bool
  | [] => true
  | p :: ps => p.isWritable && areWritable ps

def haveWritable : List (Pack × Pack) → Bool
  | [] => true
  | (k, v) :: rest => k.isWritable && v.isWritable && haveWritable rest

end

/-- What is read of an entry of a map. -/
def rereadEntry (again : Pack → Except ReadError Pack) (e : Pack × Pack) :
    Except ReadError (Pack × Pack) := do
  return (← again e.1, ← again e.2)

/-- What is read of a written value, as `Pack.read` counts how deep it nests. -/
def reread : Nat → Nat → Pack → Except ReadError Pack
  | 0, _, _ => .error .noMarker
  | size + 1, depth, p =>
    match p with
    | array items =>
      match depth with
      | 0 => .error .tooDeep
      | depth + 1 => (items.mapM (reread size depth)).map array
    | map entries =>
      if entries.length = 1 then (entries.mapM (rereadEntry (reread size depth))).map map
      else
        match depth with
        | 0 => .error .tooDeep
        | depth + 1 => (entries.mapM (rereadEntry (reread size depth))).map map
    | p => .ok p

theorem reread_map (size depth : Nat) (entries : List (Pack × Pack)) :
    reread (size + 1) depth (map entries) =
      if entries.length = 1 then (entries.mapM (rereadEntry (reread size depth))).map map
      else
        match depth with
        | 0 => .error .tooDeep
        | depth + 1 => (entries.mapM (rereadEntry (reread size depth))).map map :=
  rfl

/-! ## Numbers and bytes -/

theorem length_bigEndian (n x : Nat) : (bigEndian n x).length = n := by
  induction n generalizing x with
  | zero => rfl
  | succ n ih => rw [bigEndian, List.length_append, ih, List.length_singleton]

theorem ofBigEndian_bigEndian {n x : Nat} (hx : x < 256 ^ n) :
    ofBigEndian (bigEndian n x) = x := by
  induction n generalizing x with
  | zero =>
    rw [pow_zero] at hx
    show 0 = x
    omega
  | succ n ih =>
    have hhigh : x / 256 < 256 ^ n := by
      rw [pow_succ] at hx
      exact Nat.div_lt_of_lt_mul (by omega)
    have hlow : (UInt8.ofNat (x % 256)).toNat = x % 256 :=
      UInt8.toNat_ofNat_of_lt' (Nat.mod_lt _ (by decide))
    have hfold := ih hhigh
    unfold ofBigEndian at hfold ⊢
    rw [bigEndian, List.foldl_append, hfold, List.foldl_cons, List.foldl_nil, hlow]
    omega

theorem bytes_append (bs rest : List UInt8) : bytes bs.length (bs ++ rest) = .ok (bs, rest) := by
  rw [bytes, if_pos (by simp), List.take_left, List.drop_left]

theorem natural_append {n x : Nat} (hx : x < 256 ^ n) (rest : List UInt8) :
    natural n (bigEndian n x ++ rest) = .ok (x, rest) := by
  have hbytes := bytes_append (bigEndian n x) rest
  rw [length_bigEndian] at hbytes
  show (bytes n _).bind _ = _
  rw [hbytes]
  show Except.ok (ofBigEndian _, rest) = _
  rw [ofBigEndian_bigEndian hx]

theorem fromUTF8?_utf8 (s : String) : String.fromUTF8? ⟨(utf8 s).toArray⟩ = some s := by
  have hbytes : (⟨(utf8 s).toArray⟩ : ByteArray) = s.toByteArray := by
    rw [utf8, Array.toArray_toList, String.toUTF8_eq_toByteArray]
  rw [hbytes, String.fromUTF8?, dif_pos s.isValidUTF8]
  rfl

theorem text_append (s : String) (rest : List UInt8) :
    text (utf8 s).length (utf8 s ++ rest) = .ok (str s, rest) := by
  have hbytes := bytes_append (utf8 s) rest
  show (bytes _ _).bind _ = _
  rw [hbytes]
  simp only [Except.bind, fromUTF8?_utf8]
  rfl

/-! ## Heads -/

/-- The rest of an array of so many items. -/
def readArray (item : Option (Reader Pack)) (n : Nat) : Reader Pack :=
  match item with
  | none => throw .tooDeep
  | some value => do return array (← items value n)

def readEntries (value : Reader Pack) (n : Nat) : Reader Pack := do
  return map (← items (do
    let k ← value
    return (k, ← value)) n)

/-- The rest of a map of so many entries. -/
def readMap (item : Option (Reader Pack)) (payload : Reader Pack) (n : Nat) : Reader Pack :=
  if n = 1 then readEntries payload 1
  else
    match item with
    | none => throw .tooDeep
    | some value => readEntries value n

/-- How a value in an array or map is read. -/
def itemReader (size : Nat) : Nat → Option (Reader Pack)
  | 0 => none
  | depth + 1 => some (read size depth)

variable {size depth : Nat} {rest : List UInt8}

theorem read_cons (tag : UInt8) :
    read (size + 1) depth (tag :: rest) =
      readTagged tag.toNat (itemReader size depth) (read size depth) rest := by
  cases depth <;> rfl

theorem natural_bind {n x : Nat} (hx : x < 256 ^ n) {f : Nat → Reader Pack} :
    (natural n >>= f) (bigEndian n x ++ rest) = f x rest := by
  show (natural n _).bind _ = _
  rw [natural_append hx]
  rfl

/-- A tag with a number of its own behind it. -/
theorem read_wide {tag : UInt8} {width n : Nat} (hn : n < 256 ^ width) {f : Nat → Reader Pack}
    (htag : readTagged tag.toNat (itemReader size depth) (read size depth) = natural width >>= f) :
    read (size + 1) depth (tag :: bigEndian width n ++ rest) = f n rest := by
  rw [List.cons_append, read_cons, htag, natural_bind hn]

/-- A head that fits in one byte: its tag lies `n` above the first of its kind. -/
theorem read_small {base n : Nat} (hn : base + n < 256) :
    read (size + 1) depth ([UInt8.ofNat (base + n)] ++ rest) =
      readTagged (base + n) (itemReader size depth) (read size depth) rest := by
  rw [List.singleton_append, read_cons, UInt8.toNat_ofNat_of_lt' hn]

theorem read_arrayHead {n : Nat} (hn : n < 2 ^ 32) :
    read (size + 1) depth (arrayHead n ++ rest) = readArray (itemReader size depth) n rest := by
  unfold arrayHead
  split
  · rw [read_small (by omega)]
    unfold readTagged
    dsimp only
    rw [if_neg (by omega), if_neg (by omega), if_pos (by omega), Nat.add_sub_cancel_left]
    rfl
  split
  · rename_i hshort
    exact read_wide hshort rfl
  · exact read_wide hn rfl

theorem read_mapHead {n : Nat} (hn : n < 2 ^ 32) :
    read (size + 1) depth (mapHead n ++ rest) =
      readMap (itemReader size depth) (read size depth) n rest := by
  unfold mapHead
  split
  · rw [read_small (by omega)]
    unfold readTagged
    dsimp only
    rw [if_neg (by omega), if_pos (by omega), Nat.add_sub_cancel_left]
    rfl
  split
  · rename_i hshort
    exact read_wide hshort rfl
  · exact read_wide hn rfl

theorem read_strHead {n : Nat} (hn : n < 2 ^ 32) :
    read (size + 1) depth (strHead n ++ rest) = text n rest := by
  unfold strHead
  split
  · rw [read_small (by omega)]
    unfold readTagged
    dsimp only
    rw [if_neg (by omega), if_neg (by omega), if_neg (by omega), if_pos (by omega),
      Nat.add_sub_cancel_left]
  split
  · rename_i hshort
    exact read_wide hshort rfl
  split
  · rename_i hshort
    exact read_wide hshort rfl
  · exact read_wide hn rfl

theorem read_binHead {n : Nat} (hn : n < 2 ^ 32) :
    read (size + 1) depth (binHead n ++ rest) = binary n rest := by
  unfold binHead
  split
  · rename_i hshort
    exact read_wide hshort rfl
  split
  · rename_i hshort
    exact read_wide hshort rfl
  · exact read_wide hn rfl

/-! ## Integers -/

/-- A negative number is written as what is missing to the next power of two. -/
theorem integer_bind {n m : Nat} (hn : 0 < n) (hm : m = 2 ^ (8 * n)) {x : Int}
    (hlow : -m ≤ 2 * x) (hx : x < 0) {f : Int → Reader Pack} :
    (integer n >>= f) (bigEndian n (m + x).toNat ++ rest) = f x rest := by
  have hhalf : m = 2 * 2 ^ (8 * n - 1) := by
    rw [hm, ← pow_succ']
    congr 1
    omega
  have hbytes : (m + x).toNat < 256 ^ n := by
    have hsame : 256 ^ n = m := by
      rw [hm, pow_mul]
      rfl
    omega
  unfold integer
  rw [bind_assoc, natural_bind hbytes]
  have hvalue : (if (m + x).toNat < Nat.pow 2 (8 * n - 1) then ((m + x).toNat : Int)
      else ((m + x).toNat : Int) - Nat.pow 2 (8 * n)) = x := by
    have hpow : Nat.pow 2 (8 * n) = m := hm.symm
    have hpow' : Nat.pow 2 (8 * n - 1) = 2 ^ (8 * n - 1) := rfl
    rw [hpow, hpow', if_neg (by omega)]
    omega
  rw [hvalue, pure_bind]

theorem read_writeInt {n : Int} (hlow : -2 ^ 63 ≤ n) (hhigh : n < 2 ^ 64) :
    read (size + 1) depth (writeInt n ++ rest) = .ok (int n, rest) := by
  unfold writeInt
  dsimp only
  split
  -- From zero on: the number is its own tag, or stands behind one in as many bytes as it needs.
  · rename_i hpos
    have hn : (n.toNat : Int) = n := Int.toNat_of_nonneg hpos
    split
    · rename_i hsmall
      have htag : (UInt8.ofNat n.toNat).toNat = n.toNat :=
        UInt8.toNat_ofNat_of_lt' (show n.toNat < 256 by omega)
      rw [List.singleton_append, read_cons, htag]
      unfold readTagged
      dsimp only
      rw [if_pos (by omega), hn]
      rfl
    rw [← hn]
    split
    · rename_i hshort
      exact read_wide (f := fun x => return int x) hshort rfl
    split
    · rename_i hshort
      exact read_wide (f := fun x => return int x) hshort rfl
    split
    · rename_i hshort
      exact read_wide (f := fun x => return int x) hshort rfl
    · exact read_wide (f := fun x => return int x) (show n.toNat < 2 ^ 64 by omega) rfl
  -- Below zero: the last 32 tags are numbers themselves, and behind the others stands what is
  -- missing to the next power of two.
  rename_i hneg
  split
  · rename_i hsmall
    have htag : (UInt8.ofNat (256 + n).toNat).toNat = (256 + n).toNat :=
      UInt8.toNat_ofNat_of_lt' (show (256 + n).toNat < 256 by omega)
    rw [List.singleton_append, read_cons, htag]
    unfold readTagged
    dsimp only
    rw [if_neg (by omega), if_neg (by omega), if_neg (by omega), if_neg (by omega),
      if_pos (by omega), show (((256 + n).toNat : Int) - 256) = n by omega]
    rfl
  split
  · rename_i hbyte
    have hbyte' : -128 ≤ n := hbyte
    rw [List.cons_append, read_cons]
    exact integer_bind (by decide) (by decide) (show -256 ≤ 2 * n by omega) (by omega)
  split
  · rename_i hshort
    have hshort' : -32768 ≤ n := hshort
    rw [List.cons_append, read_cons]
    exact integer_bind (by decide) (by decide) (show -65536 ≤ 2 * n by omega) (by omega)
  split
  · rename_i hword
    have hword' : -2147483648 ≤ n := hword
    rw [List.cons_append, read_cons]
    exact integer_bind (by decide) (by decide) (show -4294967296 ≤ 2 * n by omega) (by omega)
  · rw [List.cons_append, read_cons]
    exact integer_bind (by decide) (by decide) (show -18446744073709551616 ≤ 2 * n by omega)
      (by omega)

/-! ## Values -/

theorem writeAll_eq_flatMap (ps : List Pack) : writeAll ps = ps.flatMap write := by
  induction ps with
  | nil => rfl
  | cons p ps ih => rw [writeAll, ih, List.flatMap_cons]

theorem writeEntries_eq_flatMap (entries : List (Pack × Pack)) :
    writeEntries entries = entries.flatMap fun e => write e.1 ++ write e.2 := by
  induction entries with
  | nil => rfl
  | cons e rest ih =>
    obtain ⟨k, v⟩ := e
    rw [writeEntries, ih, List.flatMap_cons]

/-- Items that are read back one by one are read back together. -/
theorem items_flatMap {α β : Type} {reader : Reader β} {written : α → List UInt8}
    {again : α → Except ReadError β} {as : List α}
    (h : ∀ a ∈ as, ∀ rest, reader (written a ++ rest) = (again a).map (·, rest)) :
    items reader as.length (as.flatMap written ++ rest) = (as.mapM again).map (·, rest) := by
  induction as with
  | nil => rfl
  | cons a as ih =>
    have ha := h a List.mem_cons_self (as.flatMap written ++ rest)
    have has := ih fun b hb => h b (List.mem_cons_of_mem a hb)
    rw [List.mapM_cons, List.length_cons, items, List.flatMap_cons, List.append_assoc]
    show (reader _).bind _ = _
    rw [ha]
    cases again a with
    | error e => rfl
    | ok b =>
      show (items reader _ _).bind _ = _
      rw [has]
      cases as.mapM again <;> rfl

theorem readEntries_append {reader : Reader Pack} {again : Pack → Except ReadError Pack}
    {entries : List (Pack × Pack)}
    (hkey : ∀ e ∈ entries, ∀ rest, reader (write e.1 ++ rest) = (again e.1).map (·, rest))
    (hvalue : ∀ e ∈ entries, ∀ rest, reader (write e.2 ++ rest) = (again e.2).map (·, rest)) :
    readEntries reader entries.length (writeEntries entries ++ rest) =
      (entries.mapM (rereadEntry again)).map fun es => (map es, rest) := by
  -- an entry is a key and a value one behind the other, so both are read as one item
  have hitems : items (do let k ← reader; return (k, ← reader)) entries.length
      (entries.flatMap (fun e => write e.1 ++ write e.2) ++ rest) =
        (entries.mapM (rereadEntry again)).map (·, rest) := by
    apply items_flatMap
    intro e he rest
    rw [List.append_assoc]
    show (reader _).bind _ = _
    rw [hkey e he, rereadEntry]
    cases again e.1 with
    | error cause => rfl
    | ok k =>
      show ((reader _).bind _) = _
      rw [hvalue e he]
      cases again e.2 <;> rfl
  rw [writeEntries_eq_flatMap]
  show (items _ _ _).bind _ = _
  rw [hitems]
  cases entries.mapM (rereadEntry again) <;> rfl

theorem areWritable_eq_all (ps : List Pack) : areWritable ps = ps.all isWritable := by
  induction ps with
  | nil => rfl
  | cons p ps ih => rw [areWritable, ih, List.all_cons]

theorem haveWritable_eq_all (entries : List (Pack × Pack)) :
    haveWritable entries = entries.all fun e => e.1.isWritable && e.2.isWritable := by
  induction entries with
  | nil => rfl
  | cons e rest ih =>
    obtain ⟨k, v⟩ := e
    rw [haveWritable, ih, List.all_cons]

/-- A value that can be written is read back, wherever it stands. -/
theorem read_write {p : Pack} (hp : p.isWritable) :
    read size depth (write p ++ rest) = (reread size depth p).map (·, rest) := by
  -- Reading stops where the sizes run out, so does reading again: the induction is on these.
  induction size generalizing depth p rest with
  | zero => rfl
  | succ size ih =>
    cases p with
    | nil => rfl
    | bool b => cases b <;> rfl
    | int n =>
      rw [isWritable, Bool.and_eq_true, decide_eq_true_iff, decide_eq_true_iff] at hp
      rw [write, read_writeInt hp.1 hp.2]
      rfl
    | float x =>
      rw [write, List.cons_append, read_cons]
      refine (natural_bind x.toBits.toNat_lt).trans ?_
      rw [Binary64.ofBits_toNat]
      rfl
    | str s =>
      rw [isWritable, decide_eq_true_iff] at hp
      rw [write, List.append_assoc, read_strHead hp, text_append]
      rfl
    | bin b =>
      rw [isWritable, decide_eq_true_iff] at hp
      rw [write, List.append_assoc, read_binHead hp]
      show (bytes _ _).bind _ = _
      rw [bytes_append]
      rfl
    | ext tag b =>
      rw [isWritable, decide_eq_true_iff] at hp
      rw [write, List.cons_append, List.cons_append, List.append_assoc, read_cons]
      have hbytes := bytes_append b rest
      refine (natural_bind hp).trans ?_
      show (bytes _ (b ++ rest)).bind _ = _
      rw [hbytes]
      rfl
    | array items =>
      rw [isWritable, Bool.and_eq_true, decide_eq_true_iff, areWritable_eq_all,
        List.all_eq_true] at hp
      rw [write, writeAll_eq_flatMap, List.append_assoc, read_arrayHead hp.1]
      cases depth with
      | zero => rfl
      | succ depth =>
        show (Pack.items (read size depth) _ _).bind _ = _
        rw [items_flatMap fun p hmem _ => ih (hp.2 p hmem)]
        show _ = ((items.mapM (reread size depth)).map array).map _
        cases items.mapM (reread size depth) <;> rfl
    | map entries =>
      rw [isWritable, Bool.and_eq_true, decide_eq_true_iff, haveWritable_eq_all,
        List.all_eq_true] at hp
      have hentries {depth : Nat} :
          readEntries (read size depth) entries.length (writeEntries entries ++ rest) =
            (entries.mapM (rereadEntry (reread size depth))).map fun es => (map es, rest) :=
        readEntries_append (fun e he _ => ih (Bool.and_eq_true_iff.1 (hp.2 e he)).1)
          fun e he _ => ih (Bool.and_eq_true_iff.1 (hp.2 e he)).2
      rw [write, List.append_assoc, read_mapHead hp.1, reread_map]
      unfold readMap
      -- a map with one entry may be the variant of a value and does not count as a level
      by_cases hone : entries.length = 1
      · have hsingle : readEntries (read size depth) entries.length _ = _ := hentries
        rw [hone] at hsingle
        rw [if_pos hone, if_pos hone, hsingle]
        cases entries.mapM (rereadEntry (reread size depth)) <;> rfl
      · rw [if_neg hone, if_neg hone]
        cases depth with
        | zero => rfl
        | succ depth =>
          refine hentries.trans ?_
          dsimp only
          cases entries.mapM (rereadEntry (reread size depth)) <;> rfl

theorem ofBytes_write {p : Pack} (hp : p.isWritable) :
    ofBytes p.write = reread p.write.length maxDepth p := by
  have hread : read p.write.length maxDepth (p.write ++ []) =
      (reread p.write.length maxDepth p).map (·, []) := read_write hp
  rw [List.append_nil] at hread
  show (read p.write.length maxDepth p.write).map (·.1) = _
  rw [hread]
  cases reread p.write.length maxDepth p <;> rfl

end Pack

end GenLang
