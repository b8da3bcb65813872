import GenLang.Proofs.Linking.Libraries
import GenLang.Cache

/-!
# What use does to a cache

A cache keeps its entries and a queue of their keys. The operations keep the two in step: the queue
lists exactly the keys that have an entry, each once, and never more than there is room for. So a
use brings a key to the end of the queue, and the entries at its front are the ones that are
dropped.
-/

namespace GenLang

/-! ## Recent items -/

section

variable {α β : Type} [DecidableEq α] [DecidableEq β]

/-- The last `n` items, the latest first, after one more use of an item. -/
def touch (n : Nat) (a : α) (recent : List α) : List α :=
  (a :: recent.filter (· != a)).take n

omit [DecidableEq β] in
theorem filter_eraseDups (p : α → Bool) (as : List α) :
    as.eraseDups.filter p = (as.filter p).eraseDups := by
  -- the recursion goes on with what is left of the tail, so the induction is on the length
  induction hn : as.length using Nat.strong_induction_on generalizing as with
  | h n ih =>
    cases as with
    | nil => rfl
    | cons a as =>
      have hlength := List.length_filter_le (fun b => !b == a) as
      have hrest := ih _ (by rw [← hn, List.length_cons]; omega) (as.filter fun b => !b == a) rfl
      rw [List.eraseDups_cons, List.filter_cons, hrest, List.filter_cons]
      by_cases ha : p a
      · rw [if_pos ha, if_pos ha, List.eraseDups_cons, List.filter_filter, List.filter_filter]
        simp only [Bool.and_comm]
      · -- what is left out is not asked for again
        have hsame : (as.filter fun b => !b == a).filter p = as.filter p := by
          rw [List.filter_filter]
          refine List.filter_congr fun b _ => ?_
          by_cases hb : b = a
          · subst hb
            simp [ha]
          · simp [hb]
        rw [if_neg ha, if_neg ha, hsame]

omit [DecidableEq β] in
theorem take_filter_ne {as : List α} (h : as.Nodup) (a : α) (m : Nat) :
    (as.filter (· != a)).take m = ((as.take (m + 1)).filter (· != a)).take m := by
  induction as generalizing m with
  | nil => rfl
  | cons b as ih =>
    obtain ⟨hb, has⟩ := List.nodup_cons.1 h
    cases m with
    | zero => rw [List.take_zero, List.take_zero]
    | succ m =>
      rw [List.take_succ_cons, List.filter_cons, List.filter_cons]
      by_cases hba : b = a
      · subst hba
        have hself {l : List α} (hl : l ⊆ as) : l.filter (· != b) = l := by
          refine List.filter_eq_self.2 fun x hx => ?_
          have hxb : x ≠ b := fun h => hb (h ▸ hl hx)
          simpa using hxb
        simp [hself (List.Subset.refl as), hself (List.take_subset (m + 1) as)]
      · simp [hba, ih has m]

omit [DecidableEq β] in
/-- One more item at the front of a history is one more use. -/
theorem take_eraseDups_cons (n : Nat) (a : α) (as : List α) :
    (a :: as).eraseDups.take n = touch n a (as.eraseDups.take n) := by
  have hfilter : (as.filter fun b => !b == a).eraseDups = as.eraseDups.filter (· != a) :=
    (filter_eraseDups _ as).symm
  rw [List.eraseDups_cons, hfilter, touch]
  cases n with
  | zero => rfl
  | succ n =>
    rw [List.take_succ_cons, List.take_succ_cons,
      take_filter_ne (References.nodup_eraseDups as)]

theorem map_touch {f : α → β} {n : Nat} {a : α} {as : List α}
    (hf : ∀ b ∈ as, f b = f a → b = a) : (touch n a as).map f = touch n (f a) (as.map f) := by
  have hfilter : (as.filter (· != a)).map f = (as.map f).filter (· != f a) := by
    rw [List.filter_map]
    refine congrArg (List.map f) (List.filter_congr fun b hb => ?_)
    by_cases hba : b = a
    · simp [hba]
    · have hne : f b ≠ f a := fun h => hba (hf b hb h)
      rw [bne_iff_ne.2 hba, Function.comp_apply, bne_iff_ne.2 hne]
  rw [touch, List.map_take, List.map_cons, hfilter, touch]

end


namespace Cache

variable {α : Type} {entries : List (CacheKey × α)} {order : List CacheKey} {c : Cache α}
  {key k : CacheKey} {v : α} {n : Nat}

/-! ## Entries -/

theorem mem_of_lookup (h : entries.lookup key = some v) : (key, v) ∈ entries := by
  obtain ⟨before, behind, hentries, -⟩ := List.lookup_eq_some_iff.1 h
  rw [hentries]
  exact List.mem_append_right before List.mem_cons_self

theorem lookup_eq_none_iff : entries.lookup key = none ↔ key ∉ entries.map (·.1) := by
  rw [List.lookup_eq_none_iff, List.mem_map]
  constructor
  · rintro h ⟨e, he, rfl⟩
    have hne := h e he
    simp at hne
  · intro h e he
    exact bne_iff_ne.2 fun hkey => h ⟨e, he, hkey.symm⟩

theorem keys_without (entries : List (CacheKey × α)) (key : CacheKey) :
    (without entries key).map (·.1) = (entries.map (·.1)).filter (· != key) := by
  rw [without, List.filter_map]
  rfl

/-! ## The queue -/

theorem requeue_eq (h : order.Nodup) (key : CacheKey) :
    requeue order key = order.filter (· != key) ++ [key] := by
  rw [requeue, h.erase_eq_filter]

theorem nodup_requeue (h : order.Nodup) (key : CacheKey) : (requeue order key).Nodup := by
  rw [requeue_eq h]
  refine List.nodup_append.2 ⟨h.filter _, List.nodup_singleton key, fun a ha b hb => ?_⟩
  rw [List.mem_singleton.1 hb]
  exact bne_iff_ne.1 (List.mem_filter.1 ha).2

/-- What is dropped is as much of the front of the queue as is too much. -/
theorem evict_eq (n : Nat) (entries : List (CacheKey × α)) (order : List CacheKey) :
    evict n entries order =
      let dropped := order.take (order.length - n)
      (dropped, ⟨n, entries.filter (!dropped.contains ·.1), order.drop (order.length - n)⟩) := by
  induction order generalizing entries with
  | nil => simp [evict]
  | cons oldest order ih =>
    rw [evict]
    by_cases hlong : n < (oldest :: order).length
    · -- one key goes, and then what is too much of the rest
      have hone : (oldest :: order).length - n = order.length - n + 1 := by
        rw [List.length_cons] at hlong ⊢
        omega
      have hfilter (dropped : List CacheKey) :
          (without entries oldest).filter (!dropped.contains ·.1) =
            entries.filter (!(oldest :: dropped).contains ·.1) := by
        rw [without, List.filter_filter]
        refine List.filter_congr fun e _ => ?_
        rw [List.contains_cons, Bool.not_or, Bool.and_comm]
        rfl
      rw [if_pos hlong, ih, hone]
      simp only [List.take_succ_cons, List.drop_succ_cons, hfilter]
    · rw [if_neg hlong, Nat.sub_eq_zero_of_le (Nat.not_lt.1 hlong)]
      simp

/-! ## Entries and queue together -/

/-- The queue lists the keys that have an entry, each once, and there is room for them. -/
structure InStep (c : Cache α) : Prop where
  keys : (c.entries.map (·.1)).Perm c.order
  nodup : c.order.Nodup
  length_le : c.order.length ≤ c.capacity

theorem inStep_new (n : Nat) : InStep { capacity := n, entries := ([] : List (CacheKey × α)) } :=
  ⟨.nil, List.nodup_nil, Nat.zero_le n⟩

theorem inStep_clear (c : Cache α) : c.clear.InStep :=
  inStep_new c.capacity

/-- Whatever is dropped is dropped from both. -/
theorem inStep_evict (n : Nat) (hkeys : (entries.map (·.1)).Perm order) (hnodup : order.Nodup) :
    (evict n entries order).2.InStep := by
  rw [evict_eq]
  dsimp only
  generalize hm : order.length - n = m
  have hleft : order.filter (!(order.take m).contains ·) = order.drop m := by
    have hparts := hnodup
    rw [← List.take_append_drop m order] at hparts
    obtain ⟨-, -, happart⟩ := List.nodup_append.1 hparts
    have htake : (order.take m).filter (!(order.take m).contains ·) = [] :=
      List.filter_eq_nil_iff.2 fun k hk => by simp [hk]
    have hdrop : (order.drop m).filter (!(order.take m).contains ·) = order.drop m :=
      List.filter_eq_self.2 fun k hk => by simpa using fun hk' => happart k hk' k hk rfl
    calc order.filter (!(order.take m).contains ·)
      _ = (order.take m ++ order.drop m).filter (!(order.take m).contains ·) := by
        rw [List.take_append_drop]
      _ = order.drop m := by rw [List.filter_append, htake, hdrop, List.nil_append]
  refine ⟨?_, hnodup.sublist (List.drop_sublist m order), ?_⟩
  · have hfilter := hkeys.filter (!(order.take m).contains ·)
    rw [hleft, List.filter_map] at hfilter
    exact hfilter
  · show (order.drop m).length ≤ n
    rw [List.length_drop]
    omega

/-- So what is entered has its key at the end of the queue. -/
theorem perm_requeue (hkeys : (entries.map (·.1)).Perm order) (hnodup : order.Nodup)
    (key : CacheKey) (v : α) :
    (((key, v) :: without entries key).map (·.1)).Perm (requeue order key) := by
  rw [List.map_cons, keys_without, requeue_eq hnodup]
  exact ((hkeys.filter _).cons key).trans (List.perm_append_singleton key _).symm

namespace InStep

variable (h : c.InStep)

include h

theorem mem_keys_iff : key ∈ c.keys ↔ key ∈ c.entries.map (·.1) :=
  h.keys.mem_iff.symm

theorem lookup_eq_none_iff : c.entries.lookup key = none ↔ key ∉ c.keys := by
  rw [Cache.lookup_eq_none_iff, h.mem_keys_iff]

theorem mem_keys_of_lookup (hv : c.entries.lookup key = some v) : key ∈ c.keys :=
  h.mem_keys_iff.2 (List.mem_map_of_mem (mem_of_lookup hv))

theorem contains_iff : c.contains key ↔ key ∈ c.keys := by
  rw [contains, ← not_iff_not, ← h.lookup_eq_none_iff, Bool.not_eq_true, Option.isSome_eq_false_iff,
    Option.isNone_iff_eq_none]

theorem size_eq : c.size = c.keys.length := by
  rw [size, ← List.length_map (·.1), h.keys.length_eq, Cache.keys]

theorem keys_eq_nil (hcapacity : c.capacity = 0) : c.keys = [] :=
  List.eq_nil_of_length_eq_zero (Nat.le_zero.1 (hcapacity ▸ h.length_le))

theorem get (key : CacheKey) : (c.get key).2.InStep := by
  unfold Cache.get
  split
  · next v hv =>
    have hkey : key ∈ c.order := h.mem_keys_of_lookup hv
    have hperm : (requeue c.order key).Perm c.order :=
      (List.perm_append_singleton key _).trans (List.perm_cons_erase hkey).symm
    exact ⟨h.keys.trans hperm.symm, nodup_requeue h.nodup key, hperm.length_eq ▸ h.length_le⟩
  · exact h

theorem insert (key : CacheKey) (v : α) : (c.insert key v).2.InStep := by
  unfold Cache.insert
  split
  · exact h
  · exact inStep_evict _ (perm_requeue h.keys h.nodup key v) (nodup_requeue h.nodup key)

/-- An insertion cuts the queue with the key at its end: what is dropped, and what stays. -/
theorem insert_queue (hcapacity : c.capacity ≠ 0) (key : CacheKey) (v : α) :
    let queue := c.keys.filter (· != key) ++ [key]
    (c.insert key v).1 = queue.take (queue.length - c.capacity) ∧
      (c.insert key v).2.keys = queue.drop (queue.length - c.capacity) := by
  rw [Cache.insert, if_neg hcapacity, evict_eq, requeue_eq h.nodup]
  exact ⟨rfl, rfl⟩

/-- Looking up what is there is a use of it. -/
theorem keys_get (hv : c.entries.lookup key = some v) :
    (c.get key).2.keys.reverse = touch c.capacity key c.keys.reverse := by
  have hkeys : (c.get key).2.keys = c.keys.filter (· != key) ++ [key] := by
    rw [Cache.get, hv]
    exact requeue_eq h.nodup key
  -- the key itself is counted once only, so that nothing is dropped
  have hlength : (c.keys.filter (· != key)).length < c.keys.length :=
    List.length_filter_lt_length_iff_exists.2 ⟨key, h.mem_keys_of_lookup hv, by simp⟩
  have hroom : c.keys.length ≤ c.capacity := h.length_le
  rw [hkeys, List.reverse_append, List.reverse_singleton, List.singleton_append, touch,
    List.filter_reverse, List.take_of_length_le]
  rw [List.length_cons, List.length_reverse]
  omega

/-- So is entering a value. -/
theorem keys_insert (key : CacheKey) (v : α) :
    (c.insert key v).2.keys.reverse = touch c.capacity key c.keys.reverse := by
  by_cases hcapacity : c.capacity = 0
  · rw [Cache.insert, if_pos hcapacity, h.keys_eq_nil hcapacity, touch, hcapacity]
    rfl
  -- the new key stands last, and nowhere else
  · obtain ⟨-, hkeys⟩ := h.insert_queue hcapacity key v
    rw [hkeys, List.reverse_drop, List.reverse_append, List.reverse_singleton,
      List.singleton_append, touch, List.filter_reverse, List.take_eq_take_min (i := c.capacity)]
    -- Both sides take a part of one list, and the bounds differ only behind its end.
    refine congrArg (List.take · _) ?_
    rw [List.length_append, List.length_singleton, List.length_cons, List.length_reverse]
    omega

end InStep

theorem entries_get (c : Cache α) (key : CacheKey) : (c.get key).2.entries = c.entries := by
  unfold get
  split <;> rfl

theorem capacity_get (c : Cache α) (key : CacheKey) : (c.get key).2.capacity = c.capacity := by
  unfold get
  split <;> rfl

theorem capacity_insert (c : Cache α) (key : CacheKey) (v : α) :
    (c.insert key v).2.capacity = c.capacity := by
  unfold insert
  split
  · rfl
  · rw [evict_eq]

/-- A value is entered in the place of an older one. -/
theorem mem_insert (hcapacity : c.capacity ≠ 0) {e : CacheKey × α}
    (he : e ∈ (c.insert key v).2.entries) : e ∈ c.entries ∧ e.1 ≠ key ∨ e = (key, v) := by
  rw [insert, if_neg hcapacity, evict_eq] at he
  rcases List.mem_cons.1 (List.mem_filter.1 he).1 with rfl | he
  · exact .inr rfl
  · obtain ⟨he, hne⟩ := List.mem_filter.1 he
    exact .inl ⟨he, bne_iff_ne.1 hne⟩

theorem mem_or_eq_of_mem_insert {e : CacheKey × α} (he : e ∈ (c.insert key v).2.entries) :
    e ∈ c.entries ∨ e = (key, v) := by
  by_cases hcapacity : c.capacity = 0
  · rw [insert, if_pos hcapacity] at he
    exact .inl he
  · exact (mem_insert hcapacity he).imp_left And.left

end Cache

end GenLang
