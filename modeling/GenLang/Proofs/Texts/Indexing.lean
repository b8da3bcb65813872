import GenLang.Proofs.Texts.Splitting

/-!
# Places in texts

Everything that a text answers about places counts characters: its length, where another text is
found in it, the characters from a place on and the one at a place. Places and lengths are integers
of 64 bits; they are compared with the length as exact integers, so that none is too large to be
refused.
-/

namespace GenLang

/-! ## Characters by their places -/

namespace Text

theorem natural?_of_neg {i : Int64} (h : i.toInt < 0) : Heap.natural? i = none :=
  if_pos (Int64.lt_iff_toInt_lt.2 h)

theorem natural?_of_nonneg {i : Int64} (h : 0 ≤ i.toInt) :
    Heap.natural? i = some i.toInt.toNat :=
  if_neg fun hlt => Int.not_lt.2 h (Int64.lt_iff_toInt_lt.1 hlt)

theorem substring?_length (s : List Char) (i n : Nat) :
    substring? s i (some n) =
      if i + n ≤ s.length then some ((s.drop i).take n) else none := by
  unfold substring?
  by_cases h : s.length < i
  · rw [if_pos h, if_neg (by omega)]
  · rw [if_neg h]

theorem substring?_rest {s : List Char} {i : Nat} (h : i ≤ s.length) :
    substring? s i none = some (s.drop i) := by
  unfold substring?
  rw [if_neg (by omega)]

/-- The first place at which a pattern matches is one where it does, and there is none before it. -/
theorem indexOf?_eq_some {pattern s : List Char} {k : Nat} (h : indexOf? pattern s = some k) :
    k ≤ s.length ∧ pattern <+: s.drop k ∧ ∀ j < k, ¬ pattern <+: s.drop j := by
  induction s generalizing k with
  | nil =>
    unfold indexOf? at h
    split at h
    · next hempty =>
      rw [List.isEmpty_iff] at hempty
      cases h
      exact ⟨Nat.le_refl _, hempty ▸ List.nil_prefix, fun j hj => absurd hj (Nat.not_lt_zero j)⟩
    · cases h
  | cons c s ih =>
    unfold indexOf? at h
    split at h
    · next hp =>
      cases h
      exact ⟨Nat.zero_le _, List.isPrefixOf_iff_prefix.1 hp,
        fun j hj => absurd hj (Nat.not_lt_zero j)⟩
    · next hp =>
      rw [Option.map_eq_some_iff] at h
      obtain ⟨j, hj, rfl⟩ := h
      obtain ⟨hle, hmatch, hfirst⟩ := ih hj
      -- the text does not start with the pattern here, and later places are those of the rest
      refine ⟨Nat.succ_le_succ hle, hmatch, fun i hi => ?_⟩
      cases i with
      | zero => rwa [List.isPrefixOf_iff_prefix] at hp
      | succ i => exact hfirst i (Nat.lt_of_succ_lt_succ hi)

theorem indexOf?_eq_none_iff (pattern s : List Char) :
    indexOf? pattern s = none ↔ hasInfix pattern s = false := by
  induction s with
  | nil =>
    unfold indexOf? hasInfix
    cases pattern.isEmpty <;> simp
  | cons c s ih =>
    unfold indexOf? hasInfix
    cases pattern.isPrefixOf (c :: s) <;> simp [ih]

/-- The characters of a text stand in another one from a place on. -/
def StandsAt (t s : String) (place : Int) : Prop :=
  ∃ before after, s = before ++ t ++ after ∧ (before.length : Int) = place

theorem standsAt_cut (s : String) {i n : Nat} (h : i + n ≤ s.length) :
    StandsAt (String.ofList ((s.toList.drop i).take n)) s i := by
  have hlen : s.toList.length = s.length := rfl
  refine ⟨String.ofList (s.toList.take i), String.ofList (s.toList.drop (i + n)), ?_, ?_⟩
  · apply String.toList_injective
    simp only [String.toList_append, String.toList_ofList, List.append_assoc]
    rw [← List.drop_drop, List.take_append_drop, List.take_append_drop]
  · rw [String.length_ofList, List.length_take, hlen, Nat.min_eq_left (by omega)]

/-- A pattern matches at a place just where it is as many characters from there. -/
theorem prefix_drop_iff {pattern s : List Char} {i : Nat} :
    pattern <+: s.drop i ↔ (s.drop i).take pattern.length = pattern :=
  ⟨fun h => (List.prefix_iff_eq_take.1 h).symm, fun h => List.prefix_iff_eq_take.2 h.symm⟩

end Text

open Text

/-! ## Members of texts -/

/-- A computation throws an exception of a name. -/
def Run.Throws {α : Type} (x : Run α) (env : Environment) (m : Machine) (name : String) : Prop :=
  ∃ v info m', x env m = .error (.thrown v info) m' ∧ info.name = name

section

variable {α : Type} {env : Environment} {m : Machine}

/-- A fault other than being cancelled is thrown as an exception of its name. -/
theorem throws_raise {f : Fault} (hf : f.name ≠ Fault.cancelled.name) :
    (Run.raise f : Run α).Throws env m f.name := by
  obtain ⟨v, heap, hvalue⟩ := faultValue_eq env m f
  refine ⟨v, ⟨f.name, f.message, m.frames.map (·.toStackFrame)⟩, { m with heap }, ?_, rfl⟩
  have hname : ¬ (f.name == Fault.cancelled.name) = true := by simpa using hf
  have hstop : Run.stopOf f env m =
      .ok (.thrown v ⟨f.name, f.message, m.frames.map (·.toStackFrame)⟩) { m with heap } := by
    unfold Run.stopOf
    rw [if_neg hname]
    exact bind_of_ok hvalue
  exact bind_of_ok hstop

end

namespace Evaluator

variable {env : Environment} {m : Machine}

theorem getMember_length (k : Evaluator) (s : String) :
    k.getMember (.str s) "Length" env m = .ok (.int (Int64.ofNat s.length)) m :=
  rfl

theorem callValue_startsWith (n : Nat) (s t : String) :
    (ofFuel n).callValue (.str s) "StartsWith" [.str t] env m =
      .ok (.bool (t.toList.isPrefixOf s.toList)) m.unpark :=
  rfl

theorem callValue_indexOf (n : Nat) (s t : String) :
    (ofFuel n).callValue (.str s) "IndexOf" [.str t] env m =
      .ok (NativeCode.position (indexOf? t.toList s.toList)) m.unpark :=
  rfl

/-- Native code that refuses an argument. -/
theorem enter_of_fault {k : Evaluator} {code : NativeCode Value} {f : Fault}
    (h : code.run k env m.unpark = .error f m.unpark) :
    k.enter code env m = Run.raise f env m.unpark := by
  unfold Evaluator.enter
  rw [h]
  rfl

/-- The characters of a text from a place on, as native code gives them. -/
theorem callValue_substring_of_some (n : Nat) {s : String} {args : List Value} {cs : List Char}
    (h : NativeCode.stringMethod s "Substring" args = .done (.str (String.ofList cs))) :
    (ofFuel n).callValue (.str s) "Substring" args env m =
      .ok (.str (String.ofList cs)) m.unpark := by
  show Evaluator.enter _ (NativeCode.stringMethod s "Substring" args) env m = _
  rw [h]
  exact enter_of_reading rfl

theorem stringMethod_substring (s : String) (i n : Int64) :
    NativeCode.stringMethod s "Substring" [.int i, .int n] = NativeCode.substring s i (some n) :=
  rfl

theorem stringMethod_substring_rest (s : String) (i : Int64) :
    NativeCode.stringMethod s "Substring" [.int i] = NativeCode.substring s i none :=
  rfl

theorem callValue_substring (n : Nat) {s : String} {i length : Int64} (hi : 0 ≤ i.toInt)
    (hlength : 0 ≤ length.toInt) (hend : i.toInt + length.toInt ≤ s.length) :
    (ofFuel n).callValue (.str s) "Substring" [.int i, .int length] env m =
      .ok (.str (String.ofList ((s.toList.drop i.toInt.toNat).take length.toInt.toNat)))
        m.unpark := by
  apply callValue_substring_of_some
  rw [stringMethod_substring]
  have hsize : s.toList.length = s.length := rfl
  unfold NativeCode.substring
  rw [natural?_of_nonneg hi]
  dsimp only
  rw [natural?_of_nonneg hlength, Option.bind_some]
  rw [substring?_length, if_pos (by omega)]
  rfl

theorem callValue_substring_rest (n : Nat) {s : String} {i : Int64} (hi : 0 ≤ i.toInt)
    (hend : i.toInt ≤ s.length) :
    (ofFuel n).callValue (.str s) "Substring" [.int i] env m =
      .ok (.str (String.ofList (s.toList.drop i.toInt.toNat))) m.unpark := by
  apply callValue_substring_of_some
  rw [stringMethod_substring_rest]
  have hsize : s.toList.length = s.length := rfl
  unfold NativeCode.substring
  rw [natural?_of_nonneg hi]
  dsimp only
  rw [substring?_rest (by omega)]
  rfl

theorem substring_outOfRange {s : String} {i length : Int64}
    (h : ¬ (0 ≤ i.toInt ∧ 0 ≤ length.toInt ∧ i.toInt + length.toInt ≤ s.length)) :
    NativeCode.substring s i (some length) = .fail .substringOutOfRange := by
  have hsize : s.toList.length = s.length := rfl
  unfold NativeCode.substring
  by_cases hi : 0 ≤ i.toInt
  · rw [natural?_of_nonneg hi]
    dsimp only
    by_cases hlength : 0 ≤ length.toInt
    · rw [natural?_of_nonneg hlength, Option.bind_some, substring?_length, if_neg (by omega)]
    · rw [natural?_of_neg (by omega)]
      rfl
  · rw [natural?_of_neg (by omega)]

theorem throws_substring (n : Nat) {s : String} {i length : Int64}
    (h : ¬ (0 ≤ i.toInt ∧ 0 ≤ length.toInt ∧ i.toInt + length.toInt ≤ s.length)) :
    ((ofFuel n).callValue (.str s) "Substring" [.int i, .int length]).Throws env m
      "ArgumentOutOfRangeException" := by
  have hcode : (NativeCode.stringMethod s "Substring" [.int i, .int length]).run (ofFuel n) env
      m.unpark = .error .substringOutOfRange m.unpark := by
    rw [stringMethod_substring, substring_outOfRange h]
    rfl
  have hraise : (ofFuel n).callValue (.str s) "Substring" [.int i, .int length] env m =
      Run.raise .substringOutOfRange env m.unpark :=
    enter_of_fault hcode
  unfold Run.Throws
  rw [hraise]
  exact throws_raise (by decide)

/-! ## Operators on texts -/

theorem eval_binary_add (n : Nat) {a b : Image.Expr} {m₁ m₂ : Machine} {x y : String}
    (ha : (ofFuel (n + 1)).eval a env m = .ok (.str x) m₁)
    (hb : (ofFuel (n + 1)).eval b env m₁ = .ok (.str y) m₂) :
    (ofFuel (n + 2)).eval (.binary .add a b) env m = .ok (.str (x ++ y)) m₂ := by
  show Evaluator.binary (ofFuel (n + 1)) .add a b env m = _
  refine (bind_of_ok ha).trans ?_
  refine (bind_of_ok hb).trans ?_
  rfl

theorem eval_index (n : Nat) {target index : Image.Expr} {m₁ m₂ : Machine} {v w : Value}
    (htarget : (ofFuel n).eval target env m = .ok v m₁)
    (hindex : (ofFuel n).eval index env m₁ = .ok w m₂) :
    (ofFuel (n + 1)).eval (.index target index) env m =
      Run.ofExcept (m₂.heap.index v w) env m₂ := by
  show evalExpr (ofFuel n) (.index target index) env m = _
  refine (bind_of_ok htarget).trans ?_
  refine (bind_of_ok hindex).trans ?_
  rfl

theorem index_of_lt (h : Heap) {s : String} {i : Int64} (hi : 0 ≤ i.toInt)
    (hend : i.toInt < s.length) :
    h.index (.str s) (.int i) =
      .ok (.str (String.ofList ((s.toList.drop i.toInt.toNat).take 1))) := by
  have hlt : i.toInt.toNat < s.toList.length := by
    have hsize : s.toList.length = s.length := rfl
    omega
  unfold Heap.index
  dsimp only
  rw [natural?_of_nonneg hi, Option.bind_some]
  rw [List.getElem?_eq_getElem hlt, List.drop_eq_getElem_cons hlt]
  rfl

theorem index_outOfRange (h : Heap) {s : String} {i : Int64}
    (hi : ¬ (0 ≤ i.toInt ∧ i.toInt < s.length)) :
    h.index (.str s) (.int i) = .error .indexOutOfRange := by
  have hsize : s.toList.length = s.length := rfl
  unfold Heap.index
  dsimp only
  by_cases hnonneg : 0 ≤ i.toInt
  · rw [natural?_of_nonneg hnonneg, Option.bind_some, List.getElem?_eq_none (by omega)]
  · rw [natural?_of_neg (by omega)]
    rfl

theorem eval_index_throws {n : Nat} {target index : Image.Expr} {f : Fault}
    {m₁ m₂ : Machine} {v w : Value} (hf : f.name ≠ Fault.cancelled.name)
    (htarget : (ofFuel n).eval target env m = .ok v m₁)
    (hindex : (ofFuel n).eval index env m₁ = .ok w m₂) (hfault : m₂.heap.index v w = .error f) :
    ((ofFuel (n + 1)).eval (.index target index)).Throws env m f.name := by
  unfold Run.Throws
  rw [eval_index n htarget hindex, hfault]
  exact throws_raise hf

/-! ## Agreement -/

/-- What a text answers about another one: the place where it first stands, or -1. -/
structure Found (n : Nat) (env : Environment) (m : Machine) (s t : String) (place size : Int64)
    (found starts : Bool) : Prop where
  indexOf : (ofFuel n).callValue (.str s) "IndexOf" [.str t] env m =
    .ok (.int place) m.unpark
  contains : (ofFuel n).callValue (.str s) "Contains" [.str t] env m =
    .ok (.bool found) m.unpark
  startsWith : (ofFuel n).callValue (.str s) "StartsWith" [.str t] env m =
    .ok (.bool starts) m.unpark
  length : (ofFuel n).getMember (.str t) "Length" env m = .ok (.int size) m
  found_iff : found = true ↔ ∃ i, StandsAt t s i
  missing_iff : place = -1 ↔ found = false
  substring : place ≠ -1 →
    (ofFuel n).callValue (.str s) "Substring" [.int place, .int size] env m =
      .ok (.str t) m.unpark
  least : place ≠ -1 → ∀ i m',
    (ofFuel n).callValue (.str s) "Substring" [.int i, .int size] env m = .ok (.str t) m' →
    place.toInt ≤ i.toInt
  starts_iff : starts = true ↔ place = 0

/-- What a text answers about its places, and about those of another text in it. -/
structure CountsCharacters (n : Nat) (env : Environment) (m : Machine) (s t : String) :
    Prop where
  length : ∃ size : Int64, size.toInt = s.length ∧
    (ofFuel (n + 1)).getMember (.str s) "Length" env m = .ok (.int size) m
  substring : ∀ i count : Int64,
    if 0 ≤ i.toInt ∧ 0 ≤ count.toInt ∧ i.toInt + count.toInt ≤ s.length then
      ∃ part, (ofFuel (n + 1)).callValue (.str s) "Substring" [.int i, .int count] env m =
          .ok (.str part) m.unpark ∧
        StandsAt part s i.toInt ∧ (part.length : Int) = count.toInt
    else
      ((ofFuel (n + 1)).callValue (.str s) "Substring" [.int i, .int count]).Throws env m
        "ArgumentOutOfRangeException"
  halves : ∀ i : Int64, 0 ≤ i.toInt → i.toInt ≤ s.length → ∃ head tail,
    (ofFuel (n + 1)).callValue (.str s) "Substring" [.int 0, .int i] env m =
        .ok (.str head) m.unpark ∧
      (ofFuel (n + 1)).callValue (.str s) "Substring" [.int i] env m =
        .ok (.str tail) m.unpark ∧
      ∀ (a b : Image.Expr) (m₁ m₂ m₃ : Machine),
        (ofFuel (n + 1)).eval a env m₁ = .ok (.str head) m₂ →
        (ofFuel (n + 1)).eval b env m₂ = .ok (.str tail) m₃ →
        (ofFuel (n + 2)).eval (.binary .add a b) env m₁ = .ok (.str s) m₃
  search : ∃ place size found starts, Found (n + 1) env m s t place size found starts
  element : ∀ (target index : Image.Expr) (m₁ m₂ m₃ : Machine) (i : Int64),
    (ofFuel (n + 1)).eval target env m₁ = .ok (.str s) m₂ →
    (ofFuel (n + 1)).eval index env m₂ = .ok (.int i) m₃ →
    if 0 ≤ i.toInt ∧ i.toInt < s.length then
      ∃ c, (ofFuel (n + 2)).eval (.index target index) env m₁ = .ok (.str c) m₃ ∧
        (ofFuel (n + 1)).callValue (.str s) "Substring" [.int i, .int 1] env m =
          .ok (.str c) m.unpark
    else
      ((ofFuel (n + 2)).eval (.index target index)).Throws env m₁ "IndexOutOfRangeException"

variable {s t : String}

theorem toInt_ofNat_of_le {k : Nat} (h : (k : Int) ≤ Int64.maxValue.toInt) :
    (Int64.ofNat k).toInt = k := by
  rw [Int64.toInt_maxValue] at h
  exact Int64.toInt_ofNat_of_lt (by omega)

section

variable (ht : (t.length : Int) ≤ Int64.maxValue.toInt)

include ht

/-- A text is as many characters from a place where it matches. -/
theorem callValue_substring_of_prefix (n : Nat) {i : Int64} (hi : 0 ≤ i.toInt)
    (hle : i.toInt ≤ s.length) (hstart : t.toList <+: s.toList.drop i.toInt.toNat) :
    (ofFuel n).callValue (.str s) "Substring" [.int i, .int (Int64.ofNat t.length)] env m =
      .ok (.str t) m.unpark := by
  have hsize := toInt_ofNat_of_le ht
  have hs : s.toList.length = s.length := rfl
  have ht : t.toList.length = t.length := rfl
  have hend := hstart.length_le
  rw [List.length_drop] at hend
  have hcount : (Int64.ofNat t.length).toInt.toNat = t.toList.length := by omega
  rw [callValue_substring n hi (by omega) (by omega), hcount, prefix_drop_iff.1 hstart,
    String.ofList_toList]

theorem prefix_of_callValue_substring {n : Nat} {i : Int64} {m' : Machine}
    (h : (ofFuel n).callValue (.str s) "Substring" [.int i, .int (Int64.ofNat t.length)] env m =
      .ok (.str t) m') :
    0 ≤ i.toInt ∧ t.toList <+: s.toList.drop i.toInt.toNat := by
  have hsize := toInt_ofNat_of_le ht
  have ht : t.toList.length = t.length := rfl
  have hcount : (Int64.ofNat t.length).toInt.toNat = t.toList.length := by omega
  by_cases hin : 0 ≤ i.toInt ∧ 0 ≤ (Int64.ofNat t.length).toInt ∧
      i.toInt + (Int64.ofNat t.length).toInt ≤ s.length
  · rw [callValue_substring n hin.1 hin.2.1 hin.2.2, hcount] at h
    injection h with hpart
    injection hpart with hpart
    refine ⟨hin.1, prefix_drop_iff.2 ?_⟩
    exact (String.toList_ofList (l := _)).symm.trans (congrArg String.toList hpart)
  · obtain ⟨_, _, _, hthrow, -⟩ : ((ofFuel n).callValue (.str s) "Substring"
        [.int i, .int (Int64.ofNat t.length)]).Throws env m "ArgumentOutOfRangeException" :=
      throws_substring n hin
    rw [hthrow] at h
    cases h

end

/-- What is searched for and where it is found, when it is found first at a place. -/
theorem searched_of_indexOf {k : Nat} (hs : (s.length : Int) ≤ Int64.maxValue.toInt)
    (h : indexOf? t.toList s.toList = some k) :
    (Int64.ofNat k).toInt = k ∧ hasInfix t.toList s.toList = true ∧
      (t.toList.isPrefixOf s.toList = true ↔ k = 0) := by
  obtain ⟨hle, hmatch, hfirst⟩ := indexOf?_eq_some h
  have hsize : s.toList.length = s.length := rfl
  refine ⟨toInt_ofNat_of_le (by omega), ?_, ?_⟩
  · rw [hasInfix_iff]
    exact hmatch.isInfix.trans (List.drop_suffix k _).isInfix
  · rw [List.isPrefixOf_iff_prefix]
    constructor
    · intro hp
      by_contra hk
      exact hfirst 0 (Nat.pos_of_ne_zero hk) hp
    · rintro rfl
      exact hmatch

theorem hasInfix_iff_standsAt : hasInfix t.toList s.toList = true ↔ ∃ i, StandsAt t s i := by
  rw [hasInfix_iff]
  constructor
  · rintro ⟨before, after, h⟩
    refine ⟨before.length, String.ofList before, String.ofList after, ?_, by simp⟩
    apply String.toList_injective
    simp [← h]
  · rintro ⟨i, before, after, h, -⟩
    refine ⟨before.toList, after.toList, ?_⟩
    rw [h, String.toList_append, String.toList_append]

theorem found_of_missing (n : Nat) (h : indexOf? t.toList s.toList = none) :
    Found n env m s t (-1) (Int64.ofNat t.length) false false := by
  have hmiss := (indexOf?_eq_none_iff _ _).1 h
  have hnone : ¬ t.toList <:+: s.toList := by rwa [← hasInfix_iff, Bool.not_eq_true]
  have hstart : t.toList.isPrefixOf s.toList = false := by
    rw [Bool.eq_false_iff, ne_eq, List.isPrefixOf_iff_prefix]
    exact fun hp => hnone hp.isInfix
  refine ⟨?_, ?_, ?_, rfl, ?_, iff_of_true rfl rfl, fun hne => absurd rfl hne,
    fun hne => absurd rfl hne, iff_of_false (by decide) (by decide)⟩
  · rw [callValue_indexOf, h]
    rfl
  · rw [callValue_contains, hmiss]
  · rw [callValue_startsWith, hstart]
  · rw [← hasInfix_iff_standsAt, hmiss]

theorem found_of_some (n : Nat) {k : Nat} (hs : (s.length : Int) ≤ Int64.maxValue.toInt)
    (ht : (t.length : Int) ≤ Int64.maxValue.toInt)
    (h : indexOf? t.toList s.toList = some k) :
    Found n env m s t (Int64.ofNat k) (Int64.ofNat t.length) true
      (t.toList.isPrefixOf s.toList) := by
  obtain ⟨hplace, hwithin, hstarts⟩ := searched_of_indexOf hs h
  obtain ⟨hle, hmatch, hfirst⟩ := indexOf?_eq_some h
  have hsize : s.toList.length = s.length := rfl
  -- A place within a text that can be counted is no negative number.
  have hne : Int64.ofNat k ≠ -1 := by
    intro hneg
    rw [hneg] at hplace
    have hminus : (-1 : Int64).toInt = -1 := rfl
    omega
  have hnat : (Int64.ofNat k).toInt.toNat = k := by omega
  refine ⟨?_, ?_, callValue_startsWith n s t, rfl, ?_, iff_of_false hne (by decide), fun _ => ?_,
    fun _ i m' hi => ?_, ?_⟩
  · rw [callValue_indexOf, h]
    rfl
  · rw [callValue_contains, hwithin]
  · rw [← hasInfix_iff_standsAt, hwithin]
  · exact callValue_substring_of_prefix ht n (by omega) (by omega) (by rwa [hnat])
  · obtain ⟨hnonneg, hstart⟩ := prefix_of_callValue_substring ht hi
    by_contra hlt
    exact hfirst i.toInt.toNat (by omega) hstart
  · rw [hstarts, ← Int64.toInt_inj, hplace, Int64.toInt_zero]
    omega

/-- Places in texts are consistent, for all texts whose lengths are integers of the language and all
integers. -/
theorem string_positions_consistent (n : Nat) (env : Environment) (m : Machine) (s t : String)
    (hs : (s.length : Int) ≤ Int64.maxValue.toInt)
    (ht : (t.length : Int) ≤ Int64.maxValue.toInt) : CountsCharacters n env m s t := by
  have hsize : s.toList.length = s.length := rfl
  have hone : (1 : Int64).toInt = 1 := rfl
  refine ⟨⟨_, toInt_ofNat_of_le hs, getMember_length _ s⟩, fun i count => ?_,
    fun i hi hend => ?_, ?_, fun target index m₁ m₂ m₃ i htarget hindex => ?_⟩
  · split
    · next hin =>
      obtain ⟨hi, hcount, hend⟩ := hin
      have hstands := standsAt_cut s (i := i.toInt.toNat) (n := count.toInt.toNat) (by omega)
      rw [Int.toNat_of_nonneg hi] at hstands
      refine ⟨_, callValue_substring (n + 1) hi hcount hend, hstands, ?_⟩
      rw [String.length_ofList, List.length_take, List.length_drop]
      omega
    · next hout => exact throws_substring (n + 1) hout
  · refine ⟨_, _, callValue_substring (n + 1) (Int.le_refl _) hi (by simpa using hend),
      callValue_substring_rest (n + 1) hi hend, fun a b m₁ m₂ m₃ ha hb => ?_⟩
    rw [eval_binary_add n ha hb, ← String.ofList_append]
    show EStateM.Result.ok (Value.str (String.ofList (List.take _ (s.toList.drop 0) ++ _))) _ = _
    rw [List.drop_zero, List.take_append_drop, String.ofList_toList]
  · cases h : indexOf? t.toList s.toList with
    | none => exact ⟨_, _, _, _, found_of_missing (n + 1) h⟩
    | some k => exact ⟨_, _, _, _, found_of_some (n + 1) hs ht h⟩
  · split
    · next hin =>
      refine ⟨_, ?_, callValue_substring (n + 1) hin.1 (by decide) (by omega)⟩
      rw [eval_index (n + 1) htarget hindex, index_of_lt _ hin.1 hin.2]
      rfl
    · next hout =>
      exact eval_index_throws (by decide) htarget hindex (index_outOfRange _ hout)

/-- The place of a character behind others that take several bytes. -/
theorem string_positions_consistent_wide :
    ("żółw".length : Int) ≤ Int64.maxValue.toInt ∧ ("w".length : Int) ≤ Int64.maxValue.toInt ∧
    CountsCharacters 0 default {} "żółw" "w" :=
  ⟨by decide, by decide,
    string_positions_consistent 0 default {} "żółw" "w" (by decide) (by decide)⟩

end Evaluator

end GenLang
