import GenLang.Proofs.Running.Delivery

/-!
# Splitting, joining and replacing

Splitting and replacing scan a text alike: where the pattern matches, the match is taken and the
scan goes on behind it; elsewhere it moves on by one character. Everything here is an induction on
that scan, so it holds for patterns that overlap with themselves.
-/

namespace GenLang

namespace Text

/-! ## The scan -/

theorem splitAfter_eq_drop (pattern : List Char) (skip : Nat) (s : List Char) :
    splitAfter pattern skip s = splitAfter pattern 0 (s.drop skip) := by
  induction s generalizing skip with
  | nil => cases skip <;> rfl
  | cons c s ih =>
    cases skip with
    | zero => rfl
    | succ skip => rw [splitAfter, List.drop_succ_cons, ih]

theorem replaceAfter_eq_drop (pattern new : List Char) (skip : Nat) (s : List Char) :
    replaceAfter pattern new skip s = replaceAfter pattern new 0 (s.drop skip) := by
  induction s generalizing skip with
  | nil => cases skip <;> rfl
  | cons c s ih =>
    cases skip with
    | zero => rfl
    | succ skip => rw [replaceAfter, List.drop_succ_cons, ih]

section

variable {pattern : List Char} {c : Char} {s : List Char}

theorem splitAfter_miss (h : ¬ pattern <+: c :: s) :
    splitAfter pattern 0 (c :: s) = consFirst c (splitAfter pattern 0 s) := by
  rw [splitAfter, if_neg (by rwa [List.isPrefixOf_iff_prefix])]

theorem replaceAfter_miss (h : ¬ pattern <+: c :: s) (new : List Char) :
    replaceAfter pattern new 0 (c :: s) = c :: replaceAfter pattern new 0 s := by
  rw [replaceAfter, if_neg (by rwa [List.isPrefixOf_iff_prefix])]

variable (hne : pattern ≠ [])

include hne

theorem splitAfter_hit (rest : List Char) :
    splitAfter pattern 0 (pattern ++ rest) = [] :: splitAfter pattern 0 rest := by
  obtain ⟨p, ps, rfl⟩ := List.exists_cons_of_ne_nil hne
  have hp : (p :: ps).isPrefixOf (p :: (ps ++ rest)) = true :=
    List.isPrefixOf_iff_prefix.2 (List.prefix_append (p :: ps) rest)
  rw [List.cons_append, splitAfter, if_pos hp, splitAfter_eq_drop]
  show [] :: splitAfter _ 0 ((ps ++ rest).drop ps.length) = _
  rw [List.drop_left]

theorem replaceAfter_hit (new rest : List Char) :
    replaceAfter pattern new 0 (pattern ++ rest) = new ++ replaceAfter pattern new 0 rest := by
  obtain ⟨p, ps, rfl⟩ := List.exists_cons_of_ne_nil hne
  have hp : (p :: ps).isPrefixOf (p :: (ps ++ rest)) = true :=
    List.isPrefixOf_iff_prefix.2 (List.prefix_append (p :: ps) rest)
  rw [List.cons_append, replaceAfter, if_pos hp, replaceAfter_eq_drop]
  show new ++ replaceAfter _ new 0 ((ps ++ rest).drop ps.length) = _
  rw [List.drop_left]

/-- A text is empty, or begins with a match that is taken as a whole, or moves on by a character. -/
theorem scan_induction {P : List Char → Prop} (nil : P [])
    (hit : ∀ rest, P rest → P (pattern ++ rest))
    (miss : ∀ c s, ¬ pattern <+: c :: s → P s → P (c :: s)) (s : List Char) : P s := by
  have hpos : 0 < pattern.length := List.length_pos_iff.2 hne
  -- A match is as long as the pattern, so the rest is shorter in both cases.
  induction hn : s.length using Nat.strongRecOn generalizing s with
  | ind n ih =>
    cases s with
    | nil => exact nil
    | cons c s =>
      rw [List.length_cons] at hn
      by_cases hp : pattern <+: c :: s
      · obtain ⟨rest, hrest⟩ := hp
        have hlen := congrArg List.length hrest
        rw [List.length_append, List.length_cons] at hlen
        rw [← hrest]
        exact hit rest (ih rest.length (by omega) rest rfl)
      · exact miss c s hp (ih s.length (by omega) s rfl)

end

/-! ## The parts -/

theorem hasInfix_iff (pattern s : List Char) : hasInfix pattern s = true ↔ pattern <:+: s := by
  induction s with
  | nil => simp [hasInfix]
  | cons c s ih =>
    rw [hasInfix, Bool.or_eq_true, ih, List.infix_cons_iff, List.isPrefixOf_iff_prefix]

theorem splitAfter_ne_nil (pattern : List Char) (skip : Nat) (s : List Char) :
    splitAfter pattern skip s ≠ [] := by
  induction s generalizing skip with
  | nil => cases skip <;> simp [splitAfter]
  | cons c s ih =>
    cases skip with
    | succ skip => exact ih skip
    | zero =>
      unfold splitAfter
      split
      · simp
      · cases splitAfter pattern 0 s <;> simp [consFirst]

section

variable {pattern : List Char} (hne : pattern ≠ [])

include hne

/-- Joining the parts by a text puts it where the matches were. -/
theorem intercalate_splitAfter (new s : List Char) :
    new.intercalate (splitAfter pattern 0 s) = replaceAfter pattern new 0 s := by
  induction s using scan_induction hne with
  | nil => simp [splitAfter, replaceAfter]
  | hit rest ih =>
    rw [splitAfter_hit hne, replaceAfter_hit hne, ← ih]
    obtain ⟨part, parts, hparts⟩ := List.exists_cons_of_ne_nil (splitAfter_ne_nil pattern 0 rest)
    rw [hparts, List.intercalate_cons_cons, List.nil_append]
  | miss c s hc ih =>
    rw [splitAfter_miss hc, replaceAfter_miss hc, ← ih]
    obtain ⟨part, parts, hparts⟩ := List.exists_cons_of_ne_nil (splitAfter_ne_nil pattern 0 s)
    rw [hparts, consFirst]
    cases parts with
    | nil => simp
    | cons next parts => simp [List.intercalate_cons_cons]

/-- Replacing a pattern by itself changes nothing. -/
theorem replaceAfter_self (s : List Char) : replaceAfter pattern pattern 0 s = s := by
  induction s using scan_induction hne with
  | nil => rfl
  | hit rest ih => rw [replaceAfter_hit hne, ih]
  | miss c s hc ih => rw [replaceAfter_miss hc, ih]

/-- The text begins with the first part. -/
theorem prefix_of_splitAfter {s part : List Char} {parts : List (List Char)}
    (h : splitAfter pattern 0 s = part :: parts) : part <+: s := by
  induction s using scan_induction hne generalizing part parts with
  | nil =>
    rw [splitAfter, List.cons.injEq] at h
    exact h.1 ▸ List.nil_prefix
  | hit rest ih =>
    rw [splitAfter_hit hne, List.cons.injEq] at h
    exact h.1 ▸ List.nil_prefix
  | miss c s hc ih =>
    obtain ⟨first, others, hs⟩ := List.exists_cons_of_ne_nil (splitAfter_ne_nil pattern 0 s)
    rw [splitAfter_miss hc, hs, consFirst, List.cons.injEq] at h
    exact h.1 ▸ List.cons_prefix_cons.2 ⟨rfl, ih hs⟩

/-- No part has a match in it: matches are taken as soon as the scan comes to them. -/
theorem not_infix_of_mem_splitAfter {s part : List Char} (h : part ∈ splitAfter pattern 0 s) :
    ¬ pattern <:+: part := by
  induction s using scan_induction hne generalizing part with
  | nil =>
    rw [splitAfter, List.mem_singleton] at h
    rwa [h, List.infix_nil]
  | hit rest ih =>
    rw [splitAfter_hit hne, List.mem_cons] at h
    obtain rfl | h := h
    · rwa [List.infix_nil]
    · exact ih h
  | miss c s hc ih =>
    obtain ⟨first, others, hs⟩ := List.exists_cons_of_ne_nil (splitAfter_ne_nil pattern 0 s)
    rw [splitAfter_miss hc, hs, consFirst, List.mem_cons] at h
    rw [hs] at ih
    obtain rfl | h := h
    · rw [List.infix_cons_iff, not_or]
      -- A match at the beginning of the part would be one at the beginning of the text.
      have hfirst : c :: first <+: c :: s :=
        List.cons_prefix_cons.2 ⟨rfl, prefix_of_splitAfter hne hs⟩
      exact ⟨fun hp => hc (hp.trans hfirst), ih List.mem_cons_self⟩
    · exact ih (List.mem_cons_of_mem _ h)

theorem splitAfter_eq_singleton_iff (s : List Char) :
    splitAfter pattern 0 s = [s] ↔ ¬ pattern <:+: s := by
  constructor
  · intro h
    exact not_infix_of_mem_splitAfter hne (h ▸ List.mem_singleton.2 rfl)
  · intro h
    induction s using scan_induction hne with
    | nil => rfl
    | hit rest ih => exact absurd (List.prefix_append pattern rest).isInfix h
    | miss c s hc ih =>
      rw [List.infix_cons_iff, not_or] at h
      rw [splitAfter_miss hc, ih h.2, consFirst]

end

section

variable (s b : String) {a : String} (ha : a ≠ "")

include ha

theorem map_toList_split : (split a s).map String.toList = splitAfter a.toList 0 s.toList := by
  have hempty : ¬ a.isEmpty = true := by simpa using ha
  rw [split, if_neg hempty, List.map_map]
  simp

theorem split_ne_nil : split a s ≠ [] := by
  intro h
  have hparts := map_toList_split s ha
  rw [h] at hparts
  exact splitAfter_ne_nil _ _ _ hparts.symm

theorem intercalate_split : b.intercalate (split a s) = replace a b s := by
  have hne : a.toList ≠ [] := by simpa using ha
  apply String.toList_injective
  rw [String.toList_intercalate, map_toList_split s ha, intercalate_splitAfter hne, replace,
    String.toList_ofList]

theorem replace_self : replace a a s = s := by
  have hne : a.toList ≠ [] := by simpa using ha
  rw [replace, replaceAfter_self hne, String.ofList_toList]

theorem hasInfix_of_mem_split {part : String} (h : part ∈ split a s) :
    hasInfix a.toList part.toList = false := by
  have hne : a.toList ≠ [] := by simpa using ha
  have hmem : part.toList ∈ splitAfter a.toList 0 s.toList := by
    rw [← map_toList_split s ha]
    exact List.mem_map_of_mem h
  rw [Bool.eq_false_iff, ne_eq, hasInfix_iff]
  exact not_infix_of_mem_splitAfter hne hmem

theorem split_eq_singleton_iff : split a s = [s] ↔ hasInfix a.toList s.toList = false := by
  have hne : a.toList ≠ [] := by simpa using ha
  rw [Bool.eq_false_iff, ne_eq, hasInfix_iff, ← splitAfter_eq_singleton_iff hne,
    ← map_toList_split s ha]
  show _ ↔ (split a s).map String.toList = [s].map String.toList
  rw [List.map_inj_right fun _ _ h => String.toList_injective h]

end

end Text

open Text

/-! ## The members of texts and lists -/

namespace Evaluator

variable {env : Environment} {m : Machine}

/-- Native code that only looks at the machine. -/
theorem enter_of_reading {k : Evaluator} {code : NativeCode Value} {v : Value}
    (h : code.run k env m.unpark = .ok v m.unpark) : k.enter code env m = .ok v m.unpark := by
  unfold Evaluator.enter
  rw [h]
  rfl

theorem callValue_contains (n : Nat) (s a : String) :
    (ofFuel n).callValue (.str s) "Contains" [.str a] env m =
      .ok (.bool (hasInfix a.toList s.toList)) m.unpark :=
  rfl

theorem callValue_split (n : Nat) (s a : String) :
    (ofFuel n).callValue (.str s) "Split" [.str a] env m =
      .ok (.list m.heap.lists.size)
        { m.unpark with
          heap := (m.heap.newList ((split a s).map Value.str).toArray).2 } :=
  rfl

theorem callValue_replace (n : Nat) (s b : String) {a : String} (ha : a ≠ "") :
    (ofFuel (n + 1)).callValue (.str s) "Replace" [.str a, .str b] env m =
      .ok (.str (replace a b s)) m.unpark := by
  have ha : ¬ a.isEmpty = true := by simpa using ha
  have hcode : NativeCode.stringMethod s "Replace" [.str a, .str b] =
      NativeCode.display (.str b) fun new => .done (.str (replace a new s)) := by
    show (if a.isEmpty = true then _ else _) = _
    rw [if_neg ha]
    rfl
  show Evaluator.enter _ (NativeCode.stringMethod s "Replace" _) env m = _
  rw [hcode]
  exact enter_of_reading rfl

theorem run_mapM_text (n : Nat) (texts : List String) (m : Machine) :
    ((texts.map Value.str).mapM NativeCode.text).run (ofFuel (n + 1)) env m = .ok texts m := by
  -- The texts that there are so far are collected in front of the rest.
  suffices ∀ before,
      (List.mapM.loop NativeCode.text (texts.map Value.str) before).run (ofFuel (n + 1)) env m =
        .ok (before.reverse ++ texts) m from this []
  induction texts with
  | nil =>
    intro before
    rw [List.append_nil]
    rfl
  | cons t texts ih =>
    intro before
    have hrest := ih (t :: before)
    rw [List.reverse_cons, List.append_assoc] at hrest
    exact hrest

theorem callValue_join (n : Nat) (address : Nat) (b : String) {texts : List String}
    (h : m.heap.items address = (texts.map Value.str).toArray) :
    (ofFuel (n + 1)).callValue (.list address) "Join" [.str b] env m =
      .ok (.str (b.intercalate texts)) m.unpark := by
  apply enter_of_reading
  show ((((m.heap.items address).toList.mapM NativeCode.text) >>= fun parts =>
    pure (Value.str (b.intercalate parts)) : NativeCode Value).run _ env m.unpark) = _
  rw [h, NativeCode.run_bind]
  unfold EStateM.bind
  rw [run_mapM_text]
  rfl

theorem items_newList (h : Heap) (items : Array Value) :
    (h.newList items).2.items h.lists.size = items := by
  unfold Heap.newList Heap.items
  simp

/-- What the members of texts and lists say about a text and its parts at another text. `m'` is the
machine after the call of `Split`, and `address` is where its list is. -/
structure Splits (k : Evaluator) (env : Environment) (m : Machine) (s a : String)
    (parts : List String) (address : Nat) (m' : Machine) : Prop where
  split : k.callValue (.str s) "Split" [.str a] env m = .ok (.list address) m'
  items : m'.heap.items address = (parts.map Value.str).toArray
  ne_nil : parts ≠ []
  apart : ∀ part ∈ parts,
    k.callValue (.str part) "Contains" [.str a] env m' = .ok (.bool false) m'
  join : k.callValue (.list address) "Join" [.str a] env m' = .ok (.str s) m'
  replace : ∀ b, ∃ t,
    k.callValue (.list address) "Join" [.str b] env m' = .ok (.str t) m' ∧
    k.callValue (.str s) "Replace" [.str a, .str b] env m = .ok (.str t) m.unpark
  contains : ∃ found,
    k.callValue (.str s) "Contains" [.str a] env m = .ok (.bool found) m.unpark ∧
    (found = false ↔ parts = [s])

/-- `Split`, `Join`, `Replace` and `Contains` fit together, for every text and every text that is
not empty: there are parts, and none of them contains the other text; joined by it they are the
first text again, and joined by any text they are what `Replace` makes of it; and the text is its
only part exactly if it does not contain the other one. -/
theorem split_join_replace (n : Nat) (env : Environment) (m : Machine) (s : String) {a : String}
    (ha : a ≠ "") :
    ∃ address m', Splits (ofFuel (n + 1)) env m s a (split a s) address m' := by
  refine ⟨m.heap.lists.size, _, callValue_split _ s a, items_newList _ _, split_ne_nil s ha, ?_, ?_,
    ?_, ?_⟩
  · intro part hpart
    rw [callValue_contains, hasInfix_of_mem_split s ha hpart]
    rfl
  · rw [callValue_join n _ a (items_newList _ _), intercalate_split s a ha, replace_self s ha]
    rfl
  · intro b
    refine ⟨replace a b s, ?_, callValue_replace n s b ha⟩
    rw [callValue_join n _ b (items_newList _ _), intercalate_split s b ha]
    rfl
  · exact ⟨_, callValue_contains _ s a, (split_eq_singleton_iff s ha).symm⟩

/-- Of matches that overlap the first counts, and one at the end leaves an empty part. -/
theorem split_join_replace_overlapping :
    "ana" ≠ "" ∧
    ∃ address m', Splits (ofFuel 1) default {} "bananana" "ana" ["b", "n", ""] address m' := by
  have hparts : split "ana" "bananana" = ["b", "n", ""] := by decide +kernel
  rw [← hparts]
  exact ⟨by decide, split_join_replace 0 default {} "bananana" (by decide)⟩

end Evaluator

end GenLang
