import GenLang.Proofs.Caching.Use

/-!
# What a cache answers

A cache of capacity `n` lists the last `n` keys that were used since it was cleared, and gives for
each of them what was entered last. Which keys were used is told by the answers given so far: a
value that was entered counts, and one that was looked up and found.
-/

namespace GenLang

namespace Cache

variable {α : Type}

/-! ## Requests -/

/-- What a cache can be asked for. -/
inductive Request (α : Type) where
  | get (key : CacheKey)
  | insert (key : CacheKey) (v : α)
  | contains (key : CacheKey)
  | clear

/-- A request with the answer to it. -/
inductive Event (α : Type) where
  | got (key : CacheKey) (answer : Option α)
  | inserted (key : CacheKey) (v : α) (dropped : List CacheKey)
  | asked (key : CacheKey) (answer : Bool)
  | cleared

/-- Serves one request. -/
def serve (c : Cache α) : Request α → Event α × Cache α
  | .get key => (.got key (c.get key).1, (c.get key).2)
  | .insert key v => (.inserted key v (c.insert key v).1, (c.insert key v).2)
  | .contains key => (.asked key (c.contains key), c)
  | .clear => (.cleared, c.clear)

/-- The cache after some requests, and what it answered. Requests and events begin with the
latest. -/
def after (c : Cache α) : List (Request α) → Cache α × List (Event α)
  | [] => (c, [])
  | request :: earlier =>
    let (d, events) := c.after earlier
    let (event, e) := d.serve request
    (e, event :: events)

/-- The keys used since the cache was last cleared, the latest use first. -/
def uses : List (Event α) → List CacheKey
  | [] => []
  | .got key (some _) :: earlier => key :: uses earlier
  | .got _ none :: earlier => uses earlier
  | .inserted key _ _ :: earlier => key :: uses earlier
  | .asked _ _ :: earlier => uses earlier
  | .cleared :: _ => []

/-- What was last entered under a key. -/
def lastEntered (key : CacheKey) : List (Event α) → Option α
  | [] => none
  | .inserted k v _ :: earlier => if k = key then some v else lastEntered key earlier
  | _ :: earlier => lastEntered key earlier

/-! ## One request -/

variable {c : Cache α} {key : CacheKey} {v : α} {n : Nat} {events : List (Event α)}

theorem get_fst (c : Cache α) (key : CacheKey) : (c.get key).1 = c.entries.lookup key := by
  unfold get
  split <;> next h => exact h.symm

/-- An insertion drops nothing, or the key that is listed first because the cache was full. -/
theorem InStep.insert_cases (h : c.InStep) (key : CacheKey) (v : α) :
    (c.insert key v).1 = [] ∧ c.keys ⊆ (c.insert key v).2.keys ∨
      ∃ oldest others, c.keys = oldest :: others ∧ key ∉ c.keys ∧
        (c.insert key v).1 = [oldest] ∧ (c.insert key v).2.keys = others ++ [key] := by
  by_cases hcapacity : c.capacity = 0
  · rw [Cache.insert, if_pos hcapacity]
    exact .inl ⟨rfl, List.Subset.refl _⟩
  obtain ⟨hdropped, hkeys⟩ := h.insert_queue hcapacity key v
  have hsize : c.keys.length ≤ c.capacity := h.length_le
  rw [hdropped, hkeys, List.length_append, List.length_singleton]
  by_cases hfull : (c.keys.filter (· != key)).length < c.capacity
  · -- there is room for one more
    rw [Nat.sub_eq_zero_of_le hfull, List.take_zero, List.drop_zero]
    refine .inl ⟨rfl, fun k hk => ?_⟩
    by_cases hkey : k = key
    · exact List.mem_append_right _ (List.mem_singleton.2 hkey)
    · exact List.mem_append_left _ (List.mem_filter.2 ⟨hk, bne_iff_ne.2 hkey⟩)
  -- What is left without the key fills the cache: so the key was not there.
  · have hall : (c.keys.filter (· != key)).length = c.keys.length := by
      have := List.length_filter_le (· != key) c.keys
      omega
    have hself : c.keys.filter (· != key) = c.keys := List.filter_sublist.eq_of_length hall
    have hnot : key ∉ c.keys := by
      rw [← hself]
      simp
    rw [hself]
    cases hlist : c.keys with
    | nil =>
      rw [hlist] at hself hfull
      simp only [List.filter_nil, List.length_nil] at hfull
      omega
    | cons oldest others =>
      -- so exactly one key is too many
      have hone : (oldest :: others).length + 1 - c.capacity = 1 := by
        rw [hlist] at hsize hself hfull
        rw [hself] at hfull
        omega
      rw [hone]
      exact .inr ⟨oldest, others, rfl, hlist ▸ hnot, rfl, rfl⟩

/-! ## All requests -/

/-- A cache of capacity `n` after some events. -/
structure Recalls (n : Nat) (events : List (Event α)) (c : Cache α) : Prop where
  inStep : c.InStep
  capacity : c.capacity = n
  keys : c.keys.reverse = (uses events).eraseDups.take n
  entered : ∀ e ∈ c.entries, lastEntered e.1 events = some e.2

namespace Recalls

variable (h : Recalls n events c)

include h

theorem serve (request : Request α) :
    Recalls n ((c.serve request).1 :: events) (c.serve request).2 := by
  cases request with
  | get key =>
    -- A miss is no use of the key and leaves everything as it is.
    cases hlookup : c.entries.lookup key with
    | none =>
      have hget : c.get key = (none, c) := by rw [get, hlookup]
      rw [Cache.serve, hget]
      exact ⟨h.inStep, h.capacity, h.keys, h.entered⟩
    | some v =>
      have hanswer : (c.get key).1 = some v := by rw [get_fst, hlookup]
      rw [Cache.serve, hanswer]
      refine ⟨h.inStep.get key, (capacity_get c key).trans h.capacity, ?_, fun e he => ?_⟩
      · rw [uses, take_eraseDups_cons, ← h.keys, h.inStep.keys_get hlookup, h.capacity]
      · exact h.entered e (entries_get c key ▸ he)
  | insert key v =>
    refine ⟨h.inStep.insert key v, (capacity_insert c key v).trans h.capacity, ?_, fun e he => ?_⟩
    · rw [Cache.serve, uses, take_eraseDups_cons, ← h.keys, h.inStep.keys_insert key v, h.capacity]
    · by_cases hcapacity : c.capacity = 0
      · -- nothing is ever kept
        rw [Cache.serve, insert, if_pos hcapacity] at he
        have hkey : e.1 ∈ c.keys := h.inStep.mem_keys_iff.2 (List.mem_map_of_mem he)
        rw [h.inStep.keys_eq_nil hcapacity] at hkey
        cases hkey
      · rw [Cache.serve, lastEntered]
        rcases mem_insert hcapacity he with ⟨he, hne⟩ | rfl
        · rw [if_neg (Ne.symm hne), h.entered e he]
        · rw [if_pos rfl]
  | contains key => exact ⟨h.inStep, h.capacity, h.keys, h.entered⟩
  | clear =>
    refine ⟨inStep_clear c, h.capacity, ?_, fun e he => absurd he List.not_mem_nil⟩
    simp [Cache.serve, clear, Cache.keys, uses]

theorem get_eq (key : CacheKey) :
    (c.get key).1 = if key ∈ c.keys then lastEntered key events else none := by
  rw [get_fst]
  cases hlookup : c.entries.lookup key with
  | none => rw [if_neg (h.inStep.lookup_eq_none_iff.1 hlookup)]
  | some v =>
    have hmem := mem_of_lookup hlookup
    rw [if_pos (h.inStep.mem_keys_of_lookup hlookup), h.entered _ hmem]

theorem insert_fst (key : CacheKey) (v : α) :
    (c.insert key v).1 = c.keys.filter (· ∉ (c.insert key v).2.keys) := by
  rcases h.inStep.insert_cases key v with
    ⟨hnone, hsub⟩ | ⟨oldest, others, hkeys, hnot, hone, hleft⟩
  · rw [hnone, eq_comm, List.filter_eq_nil_iff]
    exact fun k hk => by simpa using hsub hk
  · have hnodup : c.keys.Nodup := h.inStep.nodup
    rw [hkeys] at hnodup hnot
    obtain ⟨holdest, -⟩ := List.nodup_cons.1 hnodup
    have hgone : oldest ∉ others ++ [key] := by
      rintro hmem
      rcases List.mem_append.1 hmem with hmem | hmem
      · exact holdest hmem
      · exact hnot (List.mem_singleton.1 hmem ▸ List.mem_cons_self)
    have hstay : others.filter (· ∉ others ++ [key]) = [] :=
      List.filter_eq_nil_iff.2 fun k hk => by simp [hk]
    rw [hone, hleft, hkeys, List.filter_cons_of_pos (by simpa using hgone), hstay]

end Recalls

theorem recalls_after (n : Nat) (requests : List (Request α)) :
    Recalls n (after { capacity := n } requests).2 (after { capacity := n } requests).1 := by
  induction requests with
  | nil => exact ⟨inStep_new n, rfl, by simp [after, keys, uses], by simp [after]⟩
  | cons request earlier ih => exact ih.serve request

/-- What a cache of capacity `n` lists and answers after some events. -/
structure KeepsRecent (n : Nat) (events : List (Event α)) (c : Cache α) : Prop where
  /-- The last `n` keys that were used, each once, the latest use last. -/
  recent : c.keys.reverse = (uses events).eraseDups.take n
  nodup : c.keys.Nodup
  /-- These are the keys that have an entry, and each has one. -/
  stored : (c.entries.map (·.1)).Perm c.keys
  size : c.size = c.keys.length
  /-- Asking whether a key is there tells so and changes nothing. -/
  contains : ∀ key, c.serve (.contains key) = (.asked key (decide (key ∈ c.keys)), c)
  get : ∀ key, (c.get key).1 = if key ∈ c.keys then lastEntered key events else none
  /-- An insertion tells which keys it has dropped. -/
  dropped : ∀ key v, (c.insert key v).1 = c.keys.filter (· ∉ (c.insert key v).2.keys)
  dropped_le : ∀ key v, (c.insert key v).1.length ≤ 1
  /-- A key that is dropped is the one not used for longest. -/
  oldest : ∀ key v, ∀ k ∈ (c.insert key v).1, c.keys.head? = some k

/-- A cache keeps what was used last, whatever it is asked for in turn. -/
theorem keepsRecent_after (n : Nat) (requests : List (Request α)) :
    KeepsRecent n (after { capacity := n } requests).2 (after { capacity := n } requests).1 := by
  have h := recalls_after n requests
  generalize (after { capacity := n } requests).1 = c at h ⊢
  generalize (after { capacity := n } requests).2 = events at h ⊢
  refine ⟨h.keys, h.inStep.nodup, h.inStep.keys, h.inStep.size_eq, fun key => ?_, h.get_eq,
    h.insert_fst, fun key v => ?_, fun key v k hk => ?_⟩
  · have hcontains : c.contains key = decide (key ∈ c.keys) := by
      rw [Bool.eq_iff_iff, h.inStep.contains_iff, decide_eq_true_iff]
    rw [serve, hcontains]
  · rcases h.inStep.insert_cases key v with ⟨hnone, -⟩ | ⟨_, _, -, -, hone, -⟩
    · rw [hnone]
      exact Nat.zero_le 1
    · rw [hone]
      exact Nat.le_refl 1
  · rcases h.inStep.insert_cases key v with ⟨hnone, -⟩ | ⟨oldest, others, hkeys, -, hone, -⟩
    · rw [hnone] at hk
      exact absurd hk List.not_mem_nil
    · rw [hone] at hk
      rw [hkeys, List.mem_singleton.1 hk]
      rfl

end Cache

end GenLang
