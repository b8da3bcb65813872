import GenLang.Runner

/-!
# Sessions

A session runs one submission after the other and publishes the result of the newest. Submissions
are numbered from 1.
-/

namespace GenLang

/-- How a submission ends. -/
inductive SessionEvent where
  | completed (revision : Nat)
  /-- Nothing was published. -/
  | superseded (revision : Nat)
deriving DecidableEq, Repr, Inhabited

/-- The state between two submissions. -/
structure Session where
  runner : Runner
  /-- The number of the newest submission, 0 before the first. -/
  revision : Nat := 0
  /-- The published result and the number of its submission. -/
  latest : Option (Nat × RunResult) := none
deriving Inhabited

/-- Runs a submission to its end. -/
def Session.submit (s : Session) (sources : List LibrarySource) (program generator : String) :
    SessionEvent × Session :=
  let revision := s.revision + 1
  match s.runner.run sources program generator {} with
  | (.ok result, runner) => (.completed revision, ⟨runner, revision, some (revision, result)⟩)
  | (.error _, runner) => (.superseded revision, { s with runner, revision })

end GenLang
