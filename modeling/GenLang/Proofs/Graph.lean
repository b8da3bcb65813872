import Mathlib.Logic.Relation
import Mathlib.Data.List.Perm.Subperm
import Mathlib.Algebra.GroupWithZero.Nat
import GenLang.Graph

/-!
# What a work list reaches

`Graph.visit` stops at its bound. That changes nothing where the bound covers the entries a work
list can ever have: those it has, and for each node that was not seen the edges of that node.
-/

namespace GenLang.Graph

variable {α β : Type} [DecidableEq α]

/-- There is a path along the edges. -/
abbrev Reaches (next : α → List α) : α → α → Prop :=
  Relation.ReflTransGen fun a b => b ∈ next a

/-! ## Work lists -/

/-- Entries that nodes not seen yet may still add. -/
def pending (next : α → List α) (nodes seen : List α) : Nat :=
  (nodes.map fun x => if x ∈ seen then 0 else (next x).length).sum

theorem pending_anti (next : α → List α) (nodes seen : List α) (x : α) :
    pending next nodes (x :: seen) ≤ pending next nodes seen := by
  induction nodes with
  | nil => exact Nat.le_refl 0
  | cons y nodes ih =>
    simp only [pending, List.map_cons, List.sum_cons, List.mem_cons] at ih ⊢
    by_cases hy : y ∈ seen
    · simpa [hy] using ih
    · by_cases hx : y = x
      · rw [if_pos (.inl hx)]
        omega
      · rw [if_neg (not_or.2 ⟨hx, hy⟩), if_neg hy]
        omega

/-- A node that is seen for the first time adds its own entries only. -/
theorem pending_cons {next : α → List α} {nodes seen : List α} {x : α} (hmem : x ∈ nodes)
    (hx : x ∉ seen) :
    pending next nodes (x :: seen) + (next x).length ≤ pending next nodes seen := by
  induction nodes with
  | nil => cases hmem
  | cons y nodes ih =>
    have hanti := pending_anti next nodes seen x
    simp only [pending, List.map_cons, List.sum_cons] at ih hanti ⊢
    by_cases hy : y = x
    · subst hy
      rw [if_pos List.mem_cons_self, if_neg hx]
      omega
    · have hrest := ih ((List.mem_cons.1 hmem).resolve_left fun h => hy h.symm)
      have hhead : (if y ∈ x :: seen then 0 else (next y).length) =
          if y ∈ seen then 0 else (next y).length := by
        simp [hy]
      rw [hhead]
      omega

/-- What a work list without a bound has seen once it is used up. -/
inductive Visits (next : α → List α) : List α → List α → List α → Prop
  | done {seen : List α} : Visits next [] seen seen
  | skip {x : α} {todo seen found : List α} (hx : x ∈ seen) (h : Visits next todo seen found) :
    Visits next (x :: todo) seen found
  | enter {x : α} {todo seen found : List α} (hx : x ∉ seen)
    (h : Visits next (next x ++ todo) (x :: seen) found) : Visits next (x :: todo) seen found

section

variable {next : α → List α} {nodes : List α}

/-- With a sufficient bound the work list is used up. -/
theorem visits_visit (hnodes : ∀ x ∈ nodes, ∀ y ∈ next x, y ∈ nodes ∨ next y = []) (n : Nat)
    (todo seen : List α) (htodo : ∀ x ∈ todo, x ∈ nodes ∨ next x = [])
    (hn : todo.length + pending next nodes seen ≤ n) :
    Visits next todo seen (visit next n todo seen) := by
  fun_induction visit next n todo seen with
  | case1 todo seen =>
    obtain rfl : todo = [] := List.eq_nil_of_length_eq_zero (by omega)
    exact .done
  | case2 n seen => exact .done
  | case3 n x todo seen hx ih =>
    rw [List.length_cons] at hn
    exact .skip (List.contains_iff_mem.1 hx)
      (ih (fun y hy => htodo y (List.mem_cons_of_mem x hy)) (by omega))
  | case4 n x todo seen hx ih =>
    have hmem : x ∉ seen := fun h => hx (List.contains_iff_mem.2 h)
    -- the entry that is taken off pays for the round, the node for the entries it adds
    have hpending : pending next nodes (x :: seen) + (next x).length ≤ pending next nodes seen := by
      rcases htodo x List.mem_cons_self with hnode | hnext
      · exact pending_cons hnode hmem
      · rw [hnext]
        exact pending_anti next nodes seen x
    have hrest : ∀ y ∈ next x ++ todo, y ∈ nodes ∨ next y = [] := by
      intro y hy
      rcases List.mem_append.1 hy with hy | hy
      · rcases htodo x List.mem_cons_self with hnode | hnext
        · exact hnodes x hnode y hy
        · rw [hnext] at hy
          exact absurd hy List.not_mem_nil
      · exact htodo y (List.mem_cons_of_mem x hy)
    rw [List.length_cons] at hn
    exact .enter hmem (ih hrest (by rw [List.length_append]; omega))

namespace Visits

omit [DecidableEq α]

variable {todo seen found : List α}

theorem seen_subset (h : Visits next todo seen found) : seen ⊆ found := by
  induction h with
  | done => exact List.Subset.refl _
  | skip _ _ ih => exact ih
  | enter _ _ ih => exact List.Subset.trans (List.subset_cons_self _ _) ih

/-- Nothing is found that is not reached. -/
theorem sound (h : Visits next todo seen found) :
    ∀ y ∈ found, y ∈ seen ∨ ∃ x ∈ todo, Reaches next x y := by
  induction h with
  | done => exact fun y hy => .inl hy
  | @skip x todo seen found hx _ ih =>
    intro y hy
    rcases ih y hy with hy | ⟨z, hz, hzy⟩
    · exact .inl hy
    · exact .inr ⟨z, List.mem_cons_of_mem x hz, hzy⟩
  | @enter x todo seen found hx _ ih =>
    intro y hy
    rcases ih y hy with hy | ⟨z, hz, hzy⟩
    · rcases List.mem_cons.1 hy with rfl | hy
      · exact .inr ⟨y, List.mem_cons_self, .refl⟩
      · exact .inl hy
    · rcases List.mem_append.1 hz with hz | hz
      · exact .inr ⟨x, List.mem_cons_self, .head hz hzy⟩
      · exact .inr ⟨z, List.mem_cons_of_mem x hz, hzy⟩

/-- All entries are found, and what is found is closed under edges. The invariant is that an edge of
a node that was seen leads to another one, or to an entry of the work list. -/
theorem closed (h : Visits next todo seen found)
    (hseen : ∀ y ∈ seen, ∀ z ∈ next y, z ∈ seen ∨ z ∈ todo) :
    todo ⊆ found ∧ ∀ y ∈ found, ∀ z ∈ next y, z ∈ found := by
  -- The invariant: what comes behind a node that was seen was seen too or is still to do.
  induction h with
  | done =>
    exact ⟨List.nil_subset _, fun y hy z hz => (hseen y hy z hz).resolve_right List.not_mem_nil⟩
  | @skip x todo seen found hx h ih =>
    obtain ⟨htodo, hclosed⟩ := ih fun y hy z hz => by
      rcases hseen y hy z hz with h | h
      · exact .inl h
      · rcases List.mem_cons.1 h with rfl | h
        · exact .inl hx
        · exact .inr h
    exact ⟨List.cons_subset.2 ⟨h.seen_subset hx, htodo⟩, hclosed⟩
  | @enter x todo seen found hx h ih =>
    obtain ⟨htodo, hclosed⟩ := ih fun y hy z hz => by
      rcases List.mem_cons.1 hy with rfl | hy
      · exact .inr (List.mem_append_left todo hz)
      · rcases hseen y hy z hz with h | h
        · exact .inl (List.mem_cons_of_mem x h)
        · rcases List.mem_cons.1 h with rfl | h
          · exact .inl List.mem_cons_self
          · exact .inr (List.mem_append_right (next x) h)
    have hrest := List.Subset.trans (List.subset_append_right (next x) todo) htodo
    exact ⟨List.cons_subset.2 ⟨h.seen_subset List.mem_cons_self, hrest⟩, hclosed⟩

/-- Nothing is found twice. -/
theorem nodup (h : Visits next todo seen found) (hseen : seen.Nodup) : found.Nodup := by
  induction h with
  | done => exact hseen
  | skip _ _ ih => exact ih hseen
  | enter hx _ ih => exact ih (List.nodup_cons.2 ⟨hx, hseen⟩)

/-- What a work list finds is what its entries reach. -/
theorem mem_iff (h : Visits next todo [] found) {y : α} :
    y ∈ found ↔ ∃ x ∈ todo, Reaches next x y := by
  obtain ⟨htodo, hclosed⟩ := h.closed fun y hy => absurd hy List.not_mem_nil
  constructor
  · exact fun hy => (h.sound y hy).resolve_left List.not_mem_nil
  · rintro ⟨x, hx, hxy⟩
    induction hxy with
    | refl => exact htodo hx
    | tail _ hz ih => exact hclosed _ ih _ hz

end Visits

end

/-! ## Chains -/

section

variable {next : α → Option α}

theorem chain_subset {nodes : List α} (hnodes : ∀ x ∈ nodes, ∀ y ∈ next x, y ∈ nodes) (n : Nat)
    (seen : List α) {start : Option α} (hstart : ∀ x ∈ start, x ∈ nodes) :
    chain next n seen start ⊆ nodes := by
  induction n generalizing seen start with
  | zero => exact List.nil_subset nodes
  | succ n ih =>
    cases start with
    | none => exact List.nil_subset nodes
    | some x =>
      rw [chain]
      split
      · exact List.nil_subset nodes
      · exact List.cons_subset.2 ⟨hstart x rfl, ih (x :: seen) (hnodes x (hstart x rfl))⟩

theorem length_chain_le {nodes : List α} (hnodes : ∀ x ∈ nodes, ∀ y ∈ next x, y ∈ nodes) (n : Nat)
    {start : Option α} (hstart : ∀ x ∈ start, x ∈ nodes) :
    (chain next n [] start).length ≤ nodes.length :=
  (List.subperm_of_subset (nodup_chain next n [] start)
    (chain_subset hnodes n [] hstart)).length_le

/-- A chain that is not cut off ends where it was before. -/
theorem mem_chain_of_next {n : Nat} {seen : List α} {start : Option α}
    (h : (chain next n seen start).length < n) {x y : α} (hx : x ∈ chain next n seen start)
    (hy : next x = some y) : y ∈ chain next n seen start ∨ y ∈ seen := by
  induction n generalizing seen start with
  | zero => exact absurd h (Nat.not_lt_zero _)
  | succ n ih =>
    cases start with
    | none => exact absurd hx List.not_mem_nil
    | some z =>
      rw [chain] at h hx ⊢
      split at h
      · next hz =>
        rw [if_pos hz] at hx
        exact absurd hx List.not_mem_nil
      · next hz =>
        rw [if_neg hz] at hx ⊢
        rw [List.length_cons] at h
        -- the node behind the first one starts the rest, and bounds that are not used up leave room
        -- for it
        have hrest : y ∈ chain next n (z :: seen) (next z) ∨ y ∈ z :: seen := by
          rcases List.mem_cons.1 hx with rfl | hx
          · rw [hy]
            cases n with
            | zero => exact absurd h (by omega)
            | succ n =>
              rw [chain]
              split
              · next hseen => exact .inr (List.contains_iff_mem.1 hseen)
              · exact .inl List.mem_cons_self
          · exact ih (by omega) hx
        rcases hrest with hrest | hrest
        · exact .inl (List.mem_cons_of_mem z hrest)
        · rcases List.mem_cons.1 hrest with rfl | hrest
          · exact .inl List.mem_cons_self
          · exact .inr hrest

/-- A chain goes on from a node as it goes on where it starts at that node. -/
theorem chain_subset_chain {n m : Nat} {start : Option α}
    (h : (chain next n [] start).length < n) {x : α} (hx : x ∈ chain next n [] start) :
    chain next m [] (some x) ⊆ chain next n [] start := by
  apply chain_subset _ m [] fun y hy => Option.some.inj hy ▸ hx
  exact fun y hy z hz => (mem_chain_of_next h hy hz).resolve_right List.not_mem_nil

/-- A chain that does not need its last round does without it. -/
theorem chain_succ {n : Nat} {seen : List α} {start : Option α}
    (h : (chain next (n + 1) seen start).length ≤ n) :
    chain next (n + 1) seen start = chain next n seen start := by
  induction n generalizing seen start with
  | zero => rw [List.eq_nil_of_length_eq_zero (Nat.le_zero.1 h), chain]
  | succ n ih =>
    cases start with
    | none => rfl
    | some x =>
      rw [chain] at h
      rw [chain, chain]
      split
      · rfl
      · next hx =>
        rw [if_neg hx, List.length_cons] at h
        rw [ih (Nat.le_of_succ_le_succ h)]

/-- Rounds beyond the number of nodes do not matter. -/
theorem chain_of_le {nodes : List α} (hnodes : ∀ x ∈ nodes, ∀ y ∈ next x, y ∈ nodes)
    {start : Option α} (hstart : ∀ x ∈ start, x ∈ nodes) {n m : Nat} (hn : nodes.length ≤ n)
    (hm : nodes.length ≤ m) : chain next n [] start = chain next m [] start := by
  have hsame (k : Nat) : chain next (nodes.length + k) [] start =
      chain next nodes.length [] start := by
    induction k with
    | zero => rfl
    | succ k ih =>
      have hlen := length_chain_le hnodes (nodes.length + k + 1) hstart
      rw [← ih, ← Nat.add_assoc, chain_succ (by omega)]
  obtain ⟨i, rfl⟩ := Nat.exists_eq_add_of_le hn
  obtain ⟨j, rfl⟩ := Nat.exists_eq_add_of_le hm
  rw [hsame i, hsame j]

end

/-! ## Graphs that look alike -/

section

variable [DecidableEq β] {f : β → α} {D : β → Prop}

/-- A map that keeps edges, and tells nodes apart, maps chains to chains. -/
theorem chain_map {next : α → Option α} {next' : β → Option β}
    (hinj : ∀ c d, D c → D d → f c = f d → c = d) (hD : ∀ c, D c → ∀ d ∈ next' c, D d)
    (hnext : ∀ c, D c → next (f c) = (next' c).map f) (n : Nat) {seen : List β}
    {start : Option β} (hseen : ∀ c ∈ seen, D c) (hstart : ∀ c ∈ start, D c) :
    chain next n (seen.map f) (start.map f) = (chain next' n seen start).map f := by
  induction n generalizing seen start with
  | zero => rfl
  | succ n ih =>
    cases start with
    | none => rfl
    | some c =>
      have hc := hstart c rfl
      -- injective where it matters, so a node was seen just when its image was
      have hcontains : (seen.map f).contains (f c) = seen.contains c := by
        rw [Bool.eq_iff_iff, List.contains_iff_mem, List.contains_iff_mem, List.mem_map]
        constructor
        · rintro ⟨d, hd, hdc⟩
          exact hinj d c (hseen d hd) hc hdc ▸ hd
        · exact fun h => ⟨c, h, rfl⟩
      rw [Option.map_some, chain, chain, hcontains]
      split
      · rfl
      · rw [List.map_cons, hnext c hc, ← List.map_cons,
          ih (List.forall_mem_cons.2 ⟨hc, hseen⟩) (hD c hc)]

omit [DecidableEq α] [DecidableEq β] in
/-- What is reached in one graph is reached in the other. -/
theorem reaches_map_iff {next : α → List α} {next' : β → List β}
    (hD : ∀ c, D c → ∀ d ∈ next' c, D d)
    (hnext : ∀ c, D c → ∀ x, x ∈ next (f c) ↔ ∃ d ∈ next' c, f d = x) {c : β} (hc : D c) {x : α} :
    Reaches next (f c) x ↔ ∃ d, Reaches next' c d ∧ D d ∧ f d = x := by
  constructor
  · intro h
    induction h with
    | refl => exact ⟨c, .refl, hc, rfl⟩
    | tail _ hedge ih =>
      obtain ⟨d, hcd, hd, rfl⟩ := ih
      obtain ⟨e, he, rfl⟩ := (hnext d hd _).1 hedge
      exact ⟨e, hcd.tail he, hD d hd e he, rfl⟩
  · rintro ⟨d, hcd, -, rfl⟩
    have hboth : Reaches next (f c) (f d) ∧ D d := by
      induction hcd with
      | refl => exact ⟨.refl, hc⟩
      | tail _ hedge ih =>
        exact ⟨ih.1.tail ((hnext _ ih.2 _).2 ⟨_, hedge, rfl⟩), hD _ ih.2 _ hedge⟩
    exact hboth.1

end

/-! ## Graphs with the same edges at some nodes -/

section

variable {D : α → Prop}

theorem chain_congr {next next' : α → Option α} (hD : ∀ c, D c → ∀ d ∈ next c, D d)
    (hnext : ∀ c, D c → next c = next' c) (n : Nat) (seen : List α) {start : Option α}
    (hstart : ∀ c ∈ start, D c) : chain next n seen start = chain next' n seen start := by
  induction n generalizing seen start with
  | zero => rfl
  | succ n ih =>
    cases start with
    | none => rfl
    | some c =>
      have hc := hstart c rfl
      rw [chain, chain, ← hnext c hc, ih (c :: seen) (hD c hc)]

omit [DecidableEq α] in
theorem reaches_of_reaches {next next' : α → List α} (hD : ∀ c, D c → ∀ d ∈ next c, D d)
    (hnext : ∀ c, D c → next c = next' c) {c x : α} (hc : D c) (h : Reaches next c x) :
    Reaches next' c x ∧ D x := by
  induction h with
  | refl => exact ⟨.refl, hc⟩
  | tail _ hedge ih => exact ⟨ih.1.tail (hnext _ ih.2 ▸ hedge), hD _ ih.2 _ hedge⟩

omit [DecidableEq α] in
theorem reaches_congr {next next' : α → List α} (hD : ∀ c, D c → ∀ d ∈ next c, D d)
    (hnext : ∀ c, D c → next c = next' c) {c x : α} (hc : D c) :
    Reaches next c x ↔ Reaches next' c x :=
  ⟨fun h => (reaches_of_reaches hD hnext hc h).1, fun h => (reaches_of_reaches
    (fun c hc d hd => hD c hc d (hnext c hc ▸ hd)) (fun c hc => (hnext c hc).symm) hc h).1⟩

end

end GenLang.Graph
