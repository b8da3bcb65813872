import GenLang.Text.Position

/-!
# Positions and byte offsets

Between two characters, byte offsets and positions tell each other: a place in a text is some full
lines and then some characters of one more line, and `Position.ofByte` and `Position.toByte?` only
count these. Whatever position is asked for, what is found is a place where the text can be cut.
Positions tell offsets as long as 32 bits are enough to count, which is so for every text of less
than `2 ^ 32 - 1` bytes.
-/

namespace GenLang.Text

/-- A byte offset at which a text can be cut: between two characters, or at one of its ends. -/
def Boundary (text : String) (offset : Nat) : Prop :=
  (cut? text.toList offset).isSome

instance (text : String) (offset : Nat) : Decidable (Boundary text offset) :=
  inferInstanceAs (Decidable (_ = true))

theorem cut?_eq_some {cs : List Char} {n : Nat} {a b : List Char} (h : cut? cs n = some (a, b)) :
    cs = a ++ b ∧ n = byteLength a := by
  induction cs generalizing n a with
  | nil =>
    cases n with
    | zero =>
      cases h
      exact ⟨rfl, rfl⟩
    | succ n => cases h
  | cons c cs ih =>
    cases n with
    | zero =>
      cases h
      exact ⟨rfl, rfl⟩
    | succ n =>
      rw [cut?] at h
      -- a cut within a character is none
      by_cases hc : c.utf8Size ≤ n + 1
      · rw [if_pos hc, Option.map_eq_some_iff] at h
        obtain ⟨⟨a', b'⟩, hcut, heq⟩ := h
        cases heq
        obtain ⟨rfl, hn⟩ := ih hcut
        rw [byteLength_cons]
        exact ⟨rfl, by omega⟩
      · rw [if_neg hc] at h
        cases h

theorem boundary_iff {text : String} {offset : Nat} :
    Boundary text offset ↔ ∃ a b, text.toList = a ++ b ∧ offset = byteLength a := by
  constructor
  · intro h
    obtain ⟨⟨a, b⟩, hcut⟩ := Option.isSome_iff_exists.1 h
    exact ⟨a, b, cut?_eq_some hcut⟩
  · rintro ⟨a, b, htext, rfl⟩
    rw [Boundary, htext, cut?_byteLength]
    rfl

theorem length_le_byteLength (cs : List Char) : cs.length ≤ byteLength cs := by
  induction cs with
  | nil => exact Nat.le_refl 0
  | cons c cs ih =>
    have hc := c.utf8Size_pos
    rw [List.length_cons, byteLength_cons]
    omega

/-! ## Full lines -/

/-- So many lines, each with the line feed that ends it. -/
inductive FullLines : Nat → List Char → Prop
  | none : FullLines 0 []
  | line {n : Nat} {l ls : List Char} (hl : '\n' ∉ l) (hls : FullLines n ls) :
      FullLines (n + 1) (l ++ '\n' :: ls)

theorem FullLines.le_byteLength {n : Nat} {ls : List Char} (h : FullLines n ls) :
    n ≤ byteLength ls := by
  induction h with
  | none => exact Nat.le_refl 0
  | line hl hls ih =>
    have hsize : '\n'.utf8Size = 1 := rfl
    rw [byteLength_append, byteLength_cons]
    omega

/-- A text is full lines and a rest on one line. -/
theorem exists_fullLines (cs : List Char) :
    ∃ n ls l, FullLines n ls ∧ '\n' ∉ l ∧ cs = ls ++ l := by
  induction cs with
  | nil => exact ⟨0, [], [], .none, List.not_mem_nil, rfl⟩
  | cons c cs ih =>
    obtain ⟨n, ls, l, hls, hl, rfl⟩ := ih
    by_cases hc : c = '\n'
    · subst hc
      exact ⟨n + 1, '\n' :: ls, l, .line List.not_mem_nil hls, hl, rfl⟩
    · have hnot {cs : List Char} (h : '\n' ∉ cs) : '\n' ∉ c :: cs := by
        simpa [Ne.symm hc] using h
      cases hls with
      | none => exact ⟨0, [], c :: l, .none, hnot hl, rfl⟩
      | @line n first ls hfirst hls =>
        exact ⟨n + 1, (c :: first) ++ '\n' :: ls, l, .line (hnot hfirst) hls, hl, rfl⟩

/-- Line by line: the last line of a text ends nowhere, each other at the first line feed. -/
theorem lines_induction {P : List Char → Prop} (last : ∀ l, '\n' ∉ l → P l)
    (line : ∀ l rest, '\n' ∉ l → P rest → P (l ++ '\n' :: rest)) (cs : List Char) : P cs := by
  obtain ⟨n, ls, l, hls, hl, rfl⟩ := exists_fullLines cs
  induction hls with
  | none => exact last l hl
  | @line n first ls hfirst hls ih =>
    rw [List.append_assoc]
    exact line first (ls ++ l) hfirst ih

theorem length_splitOn_newline (cs : List Char) :
    (cs.splitOn '\n').length = cs.count '\n' + 1 := by
  induction cs using lines_induction with
  | last l hl => rw [List.splitOn_eq_singleton hl, List.count_eq_zero_of_not_mem hl]; rfl
  | line l rest hl ih =>
    rw [List.splitOn_append_cons_self_of_not_mem hl, List.length_cons, ih, List.count_append,
      List.count_eq_zero_of_not_mem hl, List.count_cons_self]
    omega

/-- What follows a line: nothing, or a line feed and the next line. -/
def Ends (rest : List Char) : Prop :=
  rest = [] ∨ ∃ behind, rest = '\n' :: behind

/-- In front of each line of a text there are as many full lines as its number says. -/
theorem fullLines_of_splitOn {cs chars : List Char} {i : Nat}
    (h : (cs.splitOn '\n')[i]? = some chars) :
    ∃ ls rest, FullLines i ls ∧ '\n' ∉ chars ∧ Ends rest ∧ cs = ls ++ chars ++ rest := by
  induction cs using lines_induction generalizing i with
  | last l hl =>
    rw [List.splitOn_eq_singleton hl, List.getElem?_singleton] at h
    by_cases hi : i = 0
    · rw [if_pos hi] at h
      cases h
      exact ⟨[], [], hi ▸ .none, hl, .inl rfl, (List.append_nil _).symm⟩
    · rw [if_neg hi] at h
      cases h
  -- the first line is asked for, or one behind the line break
  | line l rest hl ih =>
    rw [List.splitOn_append_cons_self_of_not_mem hl] at h
    cases i with
    | zero =>
      cases h
      exact ⟨[], '\n' :: rest, .none, hl, .inr ⟨rest, rfl⟩, rfl⟩
    | succ i =>
      rw [List.getElem?_cons_succ] at h
      obtain ⟨ls, rest', hls, hchars, hends, rfl⟩ := ih h
      exact ⟨l ++ '\n' :: ls, rest', .line hl hls, hchars, hends, by simp⟩

/-! ## Search -/

section

variable {items : List Nat} {x : Nat}

/-- What a search tells of a list: where the value stands, or that what is in front of an index is
smaller and the rest is larger. -/
inductive Found (items : List Nat) (x : Nat) : Except Nat Nat → Prop
  | hit {i : Nat} (h : items[i]? = some x) : Found items x (.ok i)
  | between {i : Nat} (hi : i ≤ items.length)
      (below : ∀ j item, items[j]? = some item → j < i → item < x)
      (above : ∀ j item, items[j]? = some item → i ≤ j → x < item) : Found items x (.error i)

theorem lt_of_getElem? (hitems : items.Pairwise (· < ·)) {i j a b : Nat} (hi : items[i]? = some a)
    (hj : items[j]? = some b) (hij : i < j) : a < b := by
  obtain ⟨hi', rfl⟩ := List.getElem?_eq_some_iff.1 hi
  obtain ⟨hj', rfl⟩ := List.getElem?_eq_some_iff.1 hj
  exact List.pairwise_iff_getElem.1 hitems i j hi' hj' hij

theorem found_bisect (hitems : items.Pairwise (· < ·)) {steps low high : Nat}
    (hsteps : high ≤ low + steps) (hle : low ≤ high) (hhigh : high ≤ items.length)
    (below : ∀ j item, items[j]? = some item → j < low → item < x)
    (above : ∀ j item, items[j]? = some item → high ≤ j → x < item) :
    Found items x (bisect items x steps low high) := by
  induction steps generalizing low high with
  | zero => exact .between (by omega) below fun j item hj hlow => above j item hj (by omega)
  | succ steps ih =>
    rw [bisect]
    by_cases hlow : low < high
    · rw [if_pos hlow]
      dsimp only
      generalize hmid : low + (high - low) / 2 = mid
      obtain ⟨item, hitem⟩ : ∃ item, items[mid]? = some item :=
        ⟨items.get ⟨mid, by omega⟩, List.getElem?_eq_getElem _⟩
      rw [hitem]
      dsimp only
      by_cases heq : item = x
      · rw [if_pos heq]
        exact .hit (heq ▸ hitem)
      rw [if_neg heq]
      -- The half that the item shuts out is on one side of the value as the item is.
      by_cases hlt : item < x
      · rw [if_pos hlt]
        refine ih (by omega) (by omega) hhigh (fun j other hj hjlow => ?_) above
        rcases Nat.lt_or_ge j mid with hjmid | hjmid
        · exact Nat.lt_trans (lt_of_getElem? hitems hj hitem hjmid) hlt
        · obtain rfl : j = mid := by omega
          rw [hitem] at hj
          cases hj
          exact hlt
      · rw [if_neg hlt]
        have hgt : x < item := by omega
        refine ih (by omega) (by omega) (by omega) below fun j other hj hjmid => ?_
        rcases Nat.eq_or_lt_of_le hjmid with rfl | hjmid
        · rw [hitem] at hj
          cases hj
          exact hgt
        · exact Nat.lt_trans hgt (lt_of_getElem? hitems hitem hj hjmid)
    · rw [if_neg hlow]
      exact .between (by omega) below fun j item hj hj' => above j item hj (by omega)

theorem found_search (hitems : items.Pairwise (· < ·)) (x : Nat) :
    Found items x (search items x) := by
  refine found_bisect hitems (by omega) (Nat.zero_le _) (Nat.le_refl _)
    (fun j _ _ hj => absurd hj (Nat.not_lt_zero j)) fun j item hitem hj => ?_
  rw [List.getElem?_eq_none hj] at hitem
  cases hitem

end

/-! ## Where lines begin -/

theorem lt_of_mem_startsBehind {o s : Nat} {cs : List Char}
    (hs : s ∈ LineIndex.startsBehind o cs) : o < s := by
  induction cs generalizing o with
  | nil => cases hs
  | cons c cs ih =>
    have hc := c.utf8Size_pos
    rw [LineIndex.startsBehind] at hs
    split at hs
    · rcases List.mem_cons.1 hs with rfl | hs
      · omega
      · have := ih hs
        omega
    · have := ih hs
      omega

theorem pairwise_startsBehind (o : Nat) (cs : List Char) :
    (o :: LineIndex.startsBehind o cs).Pairwise (· < ·) := by
  refine List.pairwise_cons.2 ⟨fun s hs => lt_of_mem_startsBehind hs, ?_⟩
  induction cs generalizing o with
  | nil => exact .nil
  | cons c cs ih =>
    rw [LineIndex.startsBehind]
    split
    · exact List.pairwise_cons.2 ⟨fun s hs => lt_of_mem_startsBehind hs, ih _⟩
    · exact ih _

theorem startsBehind_append {l : List Char} (hl : '\n' ∉ l) (o : Nat) (rest : List Char) :
    LineIndex.startsBehind o (l ++ rest) = LineIndex.startsBehind (o + byteLength l) rest := by
  induction l generalizing o with
  | nil => rfl
  | cons c l ih =>
    rw [List.mem_cons, not_or] at hl
    rw [List.cons_append, LineIndex.startsBehind, if_neg (Ne.symm hl.1), ih hl.2, byteLength_cons,
      Nat.add_assoc]

theorem startsBehind_newline (o : Nat) (rest : List Char) :
    LineIndex.startsBehind o ('\n' :: rest) = (o + 1) :: LineIndex.startsBehind (o + 1) rest :=
  rfl

/-- From a line on, the starts are its own and those behind it. -/
theorem drop_starts {n : Nat} {ls : List Char} (hls : FullLines n ls) (o : Nat) (rest : List Char) :
    (o :: LineIndex.startsBehind o (ls ++ rest)).drop n =
      (o + byteLength ls) :: LineIndex.startsBehind (o + byteLength ls) rest := by
  induction hls generalizing o with
  | none => rfl
  | @line n l ls hl hls ih =>
    have hsize : '\n'.utf8Size = 1 := rfl
    rw [List.append_assoc, List.cons_append, startsBehind_append hl, startsBehind_newline,
      List.drop_succ_cons, ih, byteLength_append, byteLength_cons, hsize]
    simp only [Nat.add_assoc]

theorem length_startsBehind (o : Nat) (cs : List Char) :
    (LineIndex.startsBehind o cs).length = cs.count '\n' := by
  induction cs generalizing o with
  | nil => rfl
  | cons c cs ih =>
    rw [LineIndex.startsBehind, List.count_cons]
    by_cases hc : c = '\n'
    · rw [if_pos hc, List.length_cons, ih, if_pos (beq_iff_eq.2 hc)]
    · rw [if_neg hc, ih, if_neg (by simpa using hc), Nat.add_zero]

namespace LineIndex

variable {text : String} {n : Nat} {ls rest : List Char}

theorem lineOf_eq {x : LineIndex} (hstarts : x.starts.Pairwise (· < ·)) {start o : Nat}
    (hstart : x.starts[n]? = some start) (hle : start ≤ o)
    (hnext : ∀ next, x.starts[n + 1]? = some next → o < next) : x.lineOf o = n := by
  have hfound := found_search hstarts o
  unfold lineOf
  generalize search x.starts o = result at hfound
  cases hfound with
  | @hit i h =>
    -- the offset is a start itself, so it is not in front of the line nor behind it
    rcases Nat.lt_trichotomy i n with hi | hi | hi
    · have := lt_of_getElem? hstarts h hstart hi
      omega
    · exact hi
    · have hlength := (List.getElem?_eq_some_iff.1 h).1
      obtain ⟨next, hn⟩ : ∃ next, x.starts[n + 1]? = some next :=
        ⟨x.starts.get ⟨n + 1, by omega⟩, List.getElem?_eq_getElem _⟩
      have hlt := hnext next hn
      rcases Nat.eq_or_lt_of_le (Nat.succ_le_of_lt hi) with rfl | hi
      · rw [hn] at h
        cases h
        omega
      · have := lt_of_getElem? hstarts hn h hi
        omega
  | @between i hi below above =>
    have hn : n < i := Nat.lt_of_not_le fun h => by
      have := above n start hstart h
      omega
    have hn' : i ≤ n + 1 := Nat.le_of_not_lt fun h => by
      obtain ⟨next, hn⟩ : ∃ next, x.starts[n + 1]? = some next :=
        ⟨x.starts.get ⟨n + 1, by omega⟩, List.getElem?_eq_getElem _⟩
      have := below (n + 1) next hn h
      have := hnext next hn
      omega
    show i - 1 = n
    omega

theorem position_eq {x : LineIndex} {start o : Nat} {chars : String}
    (hend : o ≤ byteLength x.text.toList) (hline : x.lineOf o = n)
    (hstart : x.starts[n]? = some start) (hchars : (Span.mk start o).text? x.text = some chars) :
    x.position o = .behind n chars.length := by
  rw [position, Nat.min_eq_left hend, hline, List.getD_eq_getElem?_getD, hstart, Option.getD_some,
    hchars]

theorem offset?_eq {x : LineIndex} {p : Position} {start stop : Nat} {chars : String}
    (hline : max p.line.toNat 1 - 1 = n) (hstart : x.starts[n]? = some start)
    (hstop : x.starts[n + 1]?.elim (byteLength x.text.toList) (· - 1) = stop)
    (hchars : (Span.mk start stop).text? x.text = some chars)
    (hlength : stop = start + byteLength chars.toList) :
    x.offset? p = some (start + byteLength (chars.toList.take (max p.column.toNat 1 - 1))) := by
  rw [offset?, hline, hstart]
  dsimp only
  rw [hstop, hchars, Option.map_some]
  refine congrArg some ?_
  by_cases hpassed : max p.column.toNat 1 - 1 < chars.length
  · rw [if_pos hpassed]
  · rw [if_neg hpassed, hlength, List.take_of_length_le]
    rw [String.length_toList]
    omega

variable (hls : FullLines n ls) (htext : text.toList = ls ++ rest)

include hls htext

theorem drop_starts_ofText : (ofText text).starts.drop n =
    byteLength ls :: startsBehind (byteLength ls) rest := by
  have h := drop_starts hls 0 rest
  rw [Nat.zero_add] at h
  rw [ofText, htext, h]

theorem starts_ofText : (ofText text).starts[n]? = some (byteLength ls) := by
  have h := congrArg (·[0]?) (drop_starts_ofText hls htext)
  simpa using h

theorem starts_ofText_succ :
    (ofText text).starts[n + 1]? = (startsBehind (byteLength ls) rest)[0]? := by
  have h := congrArg (·[1]?) (drop_starts_ofText hls htext)
  simpa using h

end LineIndex

/-! ## From bytes to positions -/

/-- A part of a text is what is between its ends. -/
theorem text?_eq {text : String} {a l b : List Char} (htext : text.toList = a ++ l ++ b) :
    (Span.mk (byteLength a) (byteLength (a ++ l))).text? text = some (String.ofList l) := by
  have hlen : byteLength (a ++ l) - byteLength a = byteLength l := by
    rw [byteLength_append]
    omega
  have hle : ¬ byteLength (a ++ l) < byteLength a := by
    rw [byteLength_append]
    omega
  rw [Span.text?, if_neg hle, htext, List.append_assoc, cut?_byteLength]
  simp only [Option.bind_eq_bind, Option.bind_some, hlen, cut?_byteLength]
  rfl

namespace Position

/-- So many lines and then so many characters of one more, counted on over a character. -/
def next (p : Nat × Nat) (c : Char) : Nat × Nat :=
  if c = '\n' then (p.1 + 1, 0) else (p.1, p.2 + 1)

theorem foldl_next_of_not_mem {l : List Char} (hl : '\n' ∉ l) (p : Nat × Nat) :
    l.foldl next p = (p.1, p.2 + l.length) := by
  induction l generalizing p with
  | nil => rfl
  | cons c l ih =>
    rw [List.mem_cons, not_or] at hl
    rw [List.foldl_cons, ih hl.2, next, if_neg (Ne.symm hl.1), List.length_cons]
    simp only [Prod.mk.injEq, true_and]
    omega

theorem foldl_next_fullLines {n : Nat} {ls : List Char} (hls : FullLines n ls) (k : Nat) :
    ls.foldl next (k, 0) = (k + n, 0) := by
  induction hls generalizing k with
  | none => rfl
  | @line n l ls hl hls ih =>
    have hfeed (p : Nat × Nat) : next p '\n' = (p.1 + 1, 0) := if_pos rfl
    rw [List.foldl_append, foldl_next_of_not_mem hl, List.foldl_cons, hfeed, ih]
    simp only [Prod.mk.injEq, and_true]
    omega

theorem foldl_next_place {n : Nat} {ls l : List Char} (hls : FullLines n ls) (hl : '\n' ∉ l) :
    (ls ++ l).foldl next (0, 0) = (n, l.length) := by
  rw [List.foldl_append, foldl_next_fullLines hls, foldl_next_of_not_mem hl, Nat.zero_add,
    Nat.zero_add]

/-- A place that is behind another in a text is so too in lines and characters. -/
theorem lt_foldl_next (p : Nat × Nat) {cs : List Char} (hcs : cs ≠ []) :
    p.1 < (cs.foldl next p).1 ∨ p.1 = (cs.foldl next p).1 ∧ p.2 < (cs.foldl next p).2 := by
  have hstep (p : Nat × Nat) (c : Char) :
      p.1 < (next p c).1 ∨ p.1 = (next p c).1 ∧ p.2 < (next p c).2 := by
    unfold next
    split
    · exact .inl (Nat.lt_succ_self _)
    · exact .inr ⟨rfl, Nat.lt_succ_self _⟩
  induction cs generalizing p with
  | nil => exact absurd rfl hcs
  | cons c cs ih =>
    rw [List.foldl_cons]
    have hfirst := hstep p c
    cases cs with
    | nil => exact hfirst
    | cons d cs =>
      have hrest := ih (next p c) (List.cons_ne_nil d cs)
      omega

variable {text : String} {n : Nat} {ls l rest : List Char}

theorem ofByte_place (hls : FullLines n ls) (hl : '\n' ∉ l)
    (htext : text.toList = ls ++ l ++ rest) :
    ofByte text (byteLength (ls ++ l)) = .behind n l.length := by
  have htext' : text.toList = ls ++ (l ++ rest) := by rw [htext, List.append_assoc]
  have hstart := LineIndex.starts_ofText hls htext'
  have hend : byteLength (ls ++ l) ≤ byteLength text.toList := by
    rw [htext, byteLength_append (ls ++ l)]
    exact Nat.le_add_right _ _
  -- the next line begins behind the characters of this one
  have hline : (LineIndex.ofText text).lineOf (byteLength (ls ++ l)) = n := by
    refine LineIndex.lineOf_eq (pairwise_startsBehind 0 text.toList) hstart ?_ fun next hnext => ?_
    · rw [byteLength_append]
      exact Nat.le_add_right _ _
    · rw [LineIndex.starts_ofText_succ hls htext', startsBehind_append hl] at hnext
      rw [byteLength_append]
      exact lt_of_mem_startsBehind (List.mem_of_getElem? hnext)
  have hplace := LineIndex.position_eq hend hline hstart (text?_eq htext)
  rwa [String.length_ofList] at hplace

/-! ## From positions to bytes -/

/-- On its line, a column leads behind the characters it counts, or behind all there are. -/
theorem toByte?_line {chars : List Char} {p : Position} (hls : FullLines n ls)
    (hchars : '\n' ∉ chars) (hends : Ends rest) (htext : text.toList = ls ++ chars ++ rest)
    (hline : max p.line.toNat 1 - 1 = n) :
    toByte? text p =
      some (byteLength (ls ++ chars.take (max p.column.toNat 1 - 1))) := by
  have htext' : text.toList = ls ++ (chars ++ rest) := by rw [htext, List.append_assoc]
  have hstart := LineIndex.starts_ofText hls htext'
  have hstop : (LineIndex.ofText text).starts[n + 1]?.elim (byteLength text.toList) (· - 1) =
      byteLength (ls ++ chars) := by
    rw [LineIndex.starts_ofText_succ hls htext', startsBehind_append hchars, byteLength_append]
    rcases hends with rfl | ⟨behind, rfl⟩
    · rw [htext, List.append_nil, byteLength_append]
      rfl
    · rw [startsBehind_newline]
      exact Nat.add_sub_cancel _ 1
  have hplace := LineIndex.offset?_eq hline hstart hstop (text?_eq htext) (by
    rw [byteLength_append, String.toList_ofList])
  rw [String.toList_ofList] at hplace
  rw [toByte?, hplace, byteLength_append]

/-- What is left of a text is the rest of a line and what follows it. -/
theorem exists_ends (cs : List Char) :
    ∃ more rest, '\n' ∉ more ∧ Ends rest ∧ cs = more ++ rest := by
  induction cs using lines_induction with
  | last l hl => exact ⟨l, [], hl, .inl rfl, (List.append_nil l).symm⟩
  | line l rest hl _ => exact ⟨l, '\n' :: rest, hl, .inr ⟨rest, rfl⟩, rfl⟩

/-- A line number is that of a line, or it is past the last one. -/
theorem exists_line (cs : List Char) (i : Nat) :
    (∃ ls chars rest, FullLines i ls ∧ '\n' ∉ chars ∧ Ends rest ∧ cs = ls ++ chars ++ rest) ∨
      (0 :: LineIndex.startsBehind 0 cs).length ≤ i := by
  cases hline : (cs.splitOn '\n')[i]? with
  | some chars =>
    obtain ⟨ls, rest, hls, hchars, hends, hcs⟩ := fullLines_of_splitOn hline
    exact .inl ⟨ls, chars, rest, hls, hchars, hends, hcs⟩
  | none =>
    rw [List.getElem?_eq_none_iff, length_splitOn_newline] at hline
    rw [List.length_cons, length_startsBehind]
    exact .inr hline

theorem boundary_toByte? (text : String) (p : Position) :
    ∃ o, toByte? text p = some o ∧ Boundary text o := by
  rcases exists_line text.toList (max p.line.toNat 1 - 1) with
    ⟨ls, chars, rest, hls, hchars, hends, htext⟩ | hpast
  · refine ⟨_, toByte?_line hls hchars hends htext rfl, boundary_iff.2
      ⟨_, chars.drop (max p.column.toNat 1 - 1) ++ rest, ?_, rfl⟩⟩
    rw [htext, List.append_assoc, List.append_assoc, ← List.append_assoc (List.take _ _),
      List.take_append_drop]
  · refine ⟨byteLength text.toList, ?_, boundary_iff.2 ⟨_, [], (List.append_nil _).symm, rfl⟩⟩
    rw [toByte?, LineIndex.offset?, LineIndex.ofText]
    dsimp only
    rw [List.getElem?_eq_none hpast]

/-! ## There and back -/

/-- At a boundary of a text, the full lines in front of it and what is passed on its own line. -/
theorem exists_place {text : String} {o : Nat} (ho : Boundary text o) :
    ∃ n ls l rest, FullLines n ls ∧ '\n' ∉ l ∧ text.toList = ls ++ l ++ rest ∧
      o = byteLength (ls ++ l) := by
  obtain ⟨a, rest, htext, rfl⟩ := boundary_iff.1 ho
  obtain ⟨n, ls, l, hls, hl, rfl⟩ := exists_fullLines a
  exact ⟨n, ls, l, rest, hls, hl, htext, rfl⟩

theorem toNat_succ {k : Nat} (hk : k + 1 < UInt32.size) : (UInt32.ofNat k + 1).toNat = k + 1 := by
  rw [UInt32.toNat_add, UInt32.toNat_ofNat_of_lt' (by omega)]
  exact Nat.mod_eq_of_lt hk

theorem succ_pred {k : UInt32} (hk : 1 ≤ k) : UInt32.ofNat (k.toNat - 1) + 1 = k := by
  have hpos : 1 ≤ k.toNat := UInt32.le_iff_toNat_le.1 hk
  have hlt := k.toNat_lt
  apply UInt32.toNat_inj.1
  rw [toNat_succ, Nat.sub_add_cancel hpos]
  rw [Nat.sub_add_cancel hpos]
  exact hlt

/-- Reading order: by line, on one line by column. -/
def Before (p q : Position) : Prop :=
  p.line < q.line ∨ p.line = q.line ∧ p.column < q.column

theorem toByte?_ofByte {text : String} (hsize : byteLength text.toList < UInt32.size - 1) {o : Nat}
    (ho : Boundary text o) : toByte? text (ofByte text o) = some o := by
  obtain ⟨n, ls, l, rest, hls, hl, htext, rfl⟩ := exists_place ho
  obtain ⟨more, behind, hmore, hends, rfl⟩ := exists_ends rest
  have hn := hls.le_byteLength
  have hlength := length_le_byteLength l
  rw [htext, byteLength_append, byteLength_append] at hsize
  have hline : max (Position.behind n l.length).line.toNat 1 - 1 = n := by
    rw [Position.behind, toNat_succ (by omega)]
    omega
  have hcolumn : max (Position.behind n l.length).column.toNat 1 - 1 = l.length := by
    rw [Position.behind, toNat_succ (by omega)]
    omega
  have htext' : text.toList = ls ++ (l ++ more) ++ behind := by
    rw [htext]
    simp only [List.append_assoc]
  have hnot : '\n' ∉ l ++ more := fun h => (List.mem_append.1 h).elim hl hmore
  rw [ofByte_place hls hl htext, toByte?_line hls hnot hends htext' hline, hcolumn, List.take_left]

theorem before_ofByte {text : String} (hsize : byteLength text.toList < UInt32.size - 1)
    {o o' : Nat} (ho : Boundary text o) (ho' : Boundary text o') (hlt : o < o') :
    (ofByte text o).Before (ofByte text o') := by
  obtain ⟨n, ls, l, rest, hls, hl, htext, rfl⟩ := exists_place ho
  obtain ⟨n', ls', l', rest', hls', hl', htext', rfl⟩ := exists_place ho'
  -- Of two fronts of a text the one with fewer bytes is a front of the other.
  have hpre : ls ++ l <+: ls' ++ l' := by
    refine (List.prefix_or_prefix_of_prefix ⟨rest, htext.symm⟩ ⟨rest', htext'.symm⟩).resolve_right
      ?_
    rintro ⟨d, hd⟩
    rw [← hd, byteLength_append (ls' ++ l')] at hlt
    omega
  obtain ⟨d, hd⟩ := hpre
  have hsome : d ≠ [] := by
    rintro rfl
    rw [← hd, List.append_nil] at hlt
    exact Nat.lt_irrefl _ hlt
  have hplaces := lt_foldl_next ((ls ++ l).foldl next (0, 0)) hsome
  rw [← List.foldl_append, hd, foldl_next_place hls hl, foldl_next_place hls' hl'] at hplaces
  have hn := hls'.le_byteLength
  have hlength := length_le_byteLength l
  have hlength' := length_le_byteLength l'
  have hfront := congrArg byteLength htext
  have hfront' := congrArg byteLength htext'
  simp only [byteLength_append] at hfront hfront'
  rw [ofByte_place hls hl htext, ofByte_place hls' hl' htext']
  rcases hplaces with hlines | ⟨hlines, hchars⟩
  · refine .inl (UInt32.lt_iff_toNat_lt.2 ?_)
    rw [behind, behind, toNat_succ (by omega), toNat_succ (by omega)]
    exact Nat.succ_lt_succ hlines
  · refine .inr ⟨congrArg (UInt32.ofNat · + 1) hlines, UInt32.lt_iff_toNat_lt.2 ?_⟩
    rw [behind, behind, toNat_succ (by omega), toNat_succ (by omega)]
    exact Nat.succ_lt_succ hchars

theorem ofByte_toByte? {text : String} {p : Position} {chars : List Char} (hline : 1 ≤ p.line)
    (hchars : (text.toList.splitOn '\n')[p.line.toNat - 1]? = some chars)
    (hcolumn : 1 ≤ p.column) (hcolumn' : p.column.toNat ≤ chars.length + 1) :
    ∃ o, toByte? text p = some o ∧ ofByte text o = p := by
  obtain ⟨ls, rest, hls, hnot, hends, htext⟩ := fullLines_of_splitOn hchars
  have hline' : max p.line.toNat 1 - 1 = p.line.toNat - 1 := by omega
  have hpassed : max p.column.toNat 1 - 1 = p.column.toNat - 1 := by omega
  refine ⟨_, toByte?_line hls hnot hends htext hline', ?_⟩
  rw [hpassed]
  -- The characters of the line up to the column.
  have htake : '\n' ∉ chars.take (p.column.toNat - 1) := fun h => hnot (List.mem_of_mem_take h)
  have htext' : text.toList = ls ++ chars.take (p.column.toNat - 1) ++
      (chars.drop (p.column.toNat - 1) ++ rest) := by
    rw [htext, List.append_assoc ls, List.append_assoc ls, ← List.append_assoc (List.take _ _),
      List.take_append_drop]
  have hlength : (chars.take (p.column.toNat - 1)).length = p.column.toNat - 1 := by
    rw [List.length_take]
    omega
  rw [ofByte_place hls htake htext', hlength, behind, succ_pred hline, succ_pred hcolumn]

/-- Byte offsets and positions go over into each other without loss. In a text of less than
`2 ^ 32 - 1` bytes, every offset at which the text can be cut is found again from its position, and
positions follow each other in the order of these offsets. In any text, on every line, every column
up to the one behind its last character is found again from its offset, and any position whatsoever
leads to an offset at which the text can be cut. -/
theorem positions_tell_bytes (text : String) :
    (byteLength text.toList < UInt32.size - 1 →
      (∀ o, Boundary text o → toByte? text (ofByte text o) = some o) ∧
      ∀ o o', Boundary text o → Boundary text o' → o < o' →
        (ofByte text o).Before (ofByte text o')) ∧
    (text.toList.splitOn '\n').length = lineCount text ∧
    (∀ (p : Position) chars, 1 ≤ p.line →
      (text.toList.splitOn '\n')[p.line.toNat - 1]? = some chars →
      1 ≤ p.column → p.column.toNat ≤ chars.length + 1 →
      ∃ o, toByte? text p = some o ∧ ofByte text o = p) ∧
    ∀ p, ∃ o, toByte? text p = some o ∧ Boundary text o := by
  refine ⟨fun hsize => ⟨fun o => toByte?_ofByte hsize, fun o o' => before_ofByte hsize⟩, ?_, ?_,
    boundary_toByte? text⟩
  · rw [length_splitOn_newline, lineCount, LineIndex.lineCount, LineIndex.ofText, List.length_cons,
      length_startsBehind]
  · exact fun p chars hline hchars hcolumn hcolumn' =>
      ofByte_toByte? hline hchars hcolumn hcolumn'

/-- A text of two lines, the second of which begins with a character of two bytes. -/
theorem positions_tell_bytes_accented :
    byteLength "a\né b".toList < UInt32.size - 1 ∧
    Boundary "a\né b" 2 ∧ Boundary "a\né b" 4 ∧
    toByte? "a\né b" (ofByte "a\né b" 4) = some 4 ∧
    (ofByte "a\né b" 2).Before (ofByte "a\né b" 4) ∧
    ("a\né b".toList.splitOn '\n')[1]? = some ['é', ' ', 'b'] ∧
    (∃ o, toByte? "a\né b" ⟨2, 4⟩ = some o ∧ ofByte "a\né b" o = ⟨2, 4⟩) ∧
    ∃ o, toByte? "a\né b" ⟨0, 9⟩ = some o ∧ Boundary "a\né b" o := by
  have hsize : byteLength "a\né b".toList < UInt32.size - 1 := by decide
  have h2 : Boundary "a\né b" 2 := by decide
  have h4 : Boundary "a\né b" 4 := by decide
  have hline : ("a\né b".toList.splitOn '\n')[1]? = some ['é', ' ', 'b'] := by decide
  obtain ⟨hshort, -, hthere, hany⟩ := positions_tell_bytes "a\né b"
  obtain ⟨hback, horder⟩ := hshort hsize
  exact ⟨hsize, h2, h4, hback 4 h4, horder 2 4 h2 h4 (by decide), hline,
    hthere ⟨2, 4⟩ ['é', ' ', 'b'] (by decide) hline (by decide) (by decide), hany ⟨0, 9⟩⟩

/-! ## Where counting ends -/

/-- One line of letters. -/
def letters (n : Nat) : String :=
  String.ofList (List.replicate n 'a')

theorem toList_letters (n : Nat) : (letters n).toList = List.replicate n 'a' :=
  String.toList_ofList

theorem byteLength_letters (n : Nat) : byteLength (letters n).toList = n := by
  rw [toList_letters]
  induction n with
  | zero => rfl
  | succ n ih =>
    have hsize : 'a'.utf8Size = 1 := rfl
    rw [List.replicate_succ, byteLength_cons, ih, hsize, Nat.add_comm]

theorem not_mem_letters (n : Nat) : '\n' ∉ (letters n).toList := by
  rw [toList_letters]
  exact fun h => absurd (List.eq_of_mem_replicate h) (by decide)

theorem ofByte_letters {k n : Nat} (hk : k ≤ n) : ofByte (letters n) k = behind 0 k := by
  have htext : (letters n).toList = [] ++ (letters k).toList ++ (letters (n - k)).toList := by
    rw [List.nil_append, toList_letters, toList_letters, toList_letters,
      List.replicate_append_replicate, Nat.add_sub_cancel' hk]
  have hplace := ofByte_place .none (not_mem_letters k) htext
  rwa [List.nil_append, byteLength_letters, toList_letters, List.length_replicate] at hplace

/-- Where the column wraps around, the end of a line is not found again, and does not follow its
beginning. -/
theorem letters_wrap {n : Nat} (hn : UInt32.ofNat n + 1 = 0) :
    Boundary (letters n) 0 ∧ Boundary (letters n) n ∧ ofByte (letters n) n = ⟨1, 0⟩ ∧
      toByte? (letters n) ⟨1, 0⟩ = some 0 ∧
      ¬ (ofByte (letters n) 0).Before (ofByte (letters n) n) := by
  have hlast : ofByte (letters n) n = ⟨1, 0⟩ := by
    rw [ofByte_letters (Nat.le_refl n), behind, hn]
    rfl
  refine ⟨boundary_iff.2 ⟨[], _, rfl, rfl⟩, boundary_iff.2 ⟨_, [], (List.append_nil _).symm, ?_⟩,
    hlast, ?_, ?_⟩
  · exact (byteLength_letters n).symm
  · exact toByte?_line .none (not_mem_letters n) (.inl rfl) (List.append_nil _).symm rfl
  · rw [ofByte_letters (Nat.zero_le n), hlast]
    rintro (hline | ⟨-, hcolumn⟩)
    · exact absurd hline (by decide)
    · exact absurd hcolumn (by decide)

/-- With one byte more, at `2 ^ 32 - 1` letters on one line, an offset is lost. -/
theorem positions_wrap :
    byteLength (letters (UInt32.size - 1)).toList < UInt32.size ∧
      Boundary (letters (UInt32.size - 1)) 0 ∧
      Boundary (letters (UInt32.size - 1)) (UInt32.size - 1) ∧
      ofByte (letters (UInt32.size - 1)) (UInt32.size - 1) = ⟨1, 0⟩ ∧
      toByte? (letters (UInt32.size - 1)) ⟨1, 0⟩ = some 0 ∧
      ¬ (ofByte (letters (UInt32.size - 1)) 0).Before
        (ofByte (letters (UInt32.size - 1)) (UInt32.size - 1)) :=
  ⟨Nat.lt_of_le_of_lt (Nat.le_of_eq (byteLength_letters _)) (by decide), letters_wrap (by decide)⟩

end Position

end GenLang.Text
