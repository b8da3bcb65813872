/-!
# Reachability

The nodes that a work list reaches, each once. `visit` follows every edge of a node it sees for the
first time; its bound is the number of entries the work list can ever have.
-/

namespace GenLang.Graph

variable {α : Type} [DecidableEq α]

/-- The nodes seen from a work list, besides those seen before. -/
def visit (next : α → List α) : Nat → List α → List α → List α
  | 0, _, seen => seen
  | _ + 1, [], seen => seen
  | n + 1, x :: todo, seen =>
    if seen.contains x then visit next n todo seen
    else visit next n (next x ++ todo) (x :: seen)

/-- A node and those its edges lead to, stopping before one that was met already. -/
def chain (next : α → Option α) : Nat → List α → Option α → List α
  | 0, _, _ => []
  | _ + 1, _, none => []
  | n + 1, seen, some x =>
    if seen.contains x then [] else x :: chain next n (x :: seen) (next x)

theorem chain_disjoint (next : α → Option α) (n : Nat) (seen : List α)
    (start : Option α) : ∀ x ∈ chain next n seen start, x ∉ seen := by
  induction n generalizing seen start with
  | zero => simp [chain]
  | succ n ih =>
    cases start with
    | none => simp [chain]
    | some y =>
      simp only [chain]
      split
      · simp
      · rename_i h
        intro x hx
        simp only [List.mem_cons] at hx
        rcases hx with rfl | hx
        · simpa using h
        · have := ih (y :: seen) (next y) x hx
          simp only [List.mem_cons, not_or] at this
          exact this.2

/-- No node occurs twice in a chain. -/
theorem nodup_chain (next : α → Option α) (n : Nat) (seen : List α)
    (start : Option α) : (chain next n seen start).Nodup := by
  induction n generalizing seen start with
  | zero => simp [chain]
  | succ n ih =>
    cases start with
    | none => simp [chain]
    | some y =>
      simp only [chain]
      split
      · simp
      · refine List.nodup_cons.2 ⟨fun h => ?_, ih _ _⟩
        exact chain_disjoint next n (y :: seen) (next y) y h (by simp)

end GenLang.Graph
