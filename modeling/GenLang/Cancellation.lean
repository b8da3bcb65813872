/-!
# Being cancelled

Whoever waits for some work may cancel it at any time, and then for good. Those who work ask for it
now and then and give up once they are told so. When work is cancelled is thus a matter of how often
they still ask in vain.
-/

namespace GenLang

/-- Work was given up because nobody waits for it any longer. -/
structure Cancelled where
deriving DecidableEq, Repr, Inhabited

def Cancelled.message (_ : Cancelled) : String :=
  "operation was cancelled"

/-- How often it is still asked in vain whether the work is cancelled; `none` if it never is. -/
abbrev Patience :=
  Option Nat

namespace Patience

/-- Asks whether the work is cancelled by now. -/
def poll : Patience → Bool × Patience
  | none => (false, none)
  | some 0 => (true, some 0)
  | some (n + 1) => (false, some n)

/-- Asks once and goes on if it is not. -/
def check (p : Patience) : Except Cancelled Patience :=
  match p.poll with
  | (true, _) => .error {}
  | (false, p) => .ok p

/-- Asks so many times. -/
def checks : Nat → Patience → Except Cancelled Patience
  | 0, p => .ok p
  | n + 1, p => do checks n (← p.check)

@[simp] theorem poll_none : poll none = (false, none) :=
  rfl

@[simp] theorem check_none : check none = .ok none :=
  rfl

@[simp] theorem checks_none (n : Nat) : checks n none = .ok none := by
  induction n with
  | zero => rfl
  | succ n ih => exact ih

end Patience

/-- When work is cancelled whose parts may be done beside each other. -/
structure Cancellation where
  /-- Patience of the work as long as its parts are done one after the other. -/
  patience : Patience := none
  /-- Patience of those parts that are done beside each other, each of which asks on its own. -/
  beside : List Patience := []
deriving DecidableEq, Repr, Inhabited

namespace Cancellation

/-- Patience of the next part. -/
def next (c : Cancellation) (parallel : Bool) : Patience :=
  if parallel then c.beside.headD none else c.patience

/-- What remains when a part is done. What one of several parts beside each other is told holds for
whoever asks behind them. -/
def after (c : Cancellation) (parallel : Bool) (left : Patience) : Cancellation :=
  if parallel then
    { patience := if left = some 0 then left else c.patience, beside := c.beside.tail }
  else { c with patience := left }

@[simp] theorem next_never (parallel : Bool) : ({} : Cancellation).next parallel = none := by
  cases parallel <;> rfl

@[simp] theorem after_never (parallel : Bool) : ({} : Cancellation).after parallel none = {} := by
  cases parallel <;> rfl

end Cancellation

end GenLang
