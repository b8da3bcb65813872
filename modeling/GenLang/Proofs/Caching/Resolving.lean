import GenLang.Proofs.Linking.Libraries

/-!
# Resolving once

A resolver is a cell that is written once, by the first call in which the libraries can be resolved.
Calls that fail leave nothing behind, however far they got; each tries again on what the sources
answer then.
-/

namespace GenLang

namespace Resolver

/-- A call on a resolver: what the sources answer while it lasts, and when it is cancelled. A call
asks each source once for its libraries and fetches each library at most once, so it never meets two
answers to one question. -/
structure Call where
  sources : List LibrarySource
  patience : Patience

/-- What a call gives where nothing is resolved yet: libraries are listed, fetched and compiled
afresh. -/
def Call.attempt (c : Call) : Except ReferenceError References :=
  (References.resolve c.sources c.patience).map (·.1)

def answer (r : Resolver) (c : Call) : Except ReferenceError References :=
  (r.get c.sources c.patience).1.map (·.1)

/-- A resolver after some calls, one after the other. -/
def after (r : Resolver) (calls : List Call) : Resolver :=
  calls.foldl (fun r c => (r.get c.sources c.patience).2) r

theorem after_append (r : Resolver) (before later : List Call) :
    r.after (before ++ later) = (r.after before).after later :=
  List.foldl_append

theorem after_cons (r : Resolver) (c : Call) (later : List Call) :
    r.after (c :: later) = (r.after [c]).after later :=
  rfl

/-! ## One call -/

section

variable {r : Resolver} {set : References}

theorem answer_of_resolved (h : r.resolved = some set) (c : Call) : r.answer c = .ok set := by
  unfold answer get
  rw [h]
  rfl

theorem answer_of_unresolved (h : r.resolved = none) (c : Call) : r.answer c = c.attempt := by
  unfold answer get Call.attempt
  rw [h]
  cases References.resolve c.sources c.patience <;> rfl

/-- A call keeps what is there, and else enters what it resolves. -/
theorem resolved_call (r : Resolver) (c : Call) :
    (r.after [c]).resolved = r.resolved.or c.attempt.toOption := by
  show (r.get c.sources c.patience).2.resolved = _
  unfold get Call.attempt
  cases h : r.resolved with
  | some set => exact h
  | none =>
    cases References.resolve c.sources c.patience with
    | ok resolved => rfl
    | error e => exact h

/-- What a call returns is there from then on. -/
theorem resolved_of_answer_ok {c : Call} (h : r.answer c = .ok set) :
    (r.after [c]).resolved = some set := by
  rw [resolved_call]
  cases hr : r.resolved with
  | some held =>
    rw [answer_of_resolved hr] at h
    cases h
    rfl
  | none =>
    rw [answer_of_unresolved hr] at h
    rw [h]
    rfl

/-- A call fails only where nothing was there, and nothing is there afterwards. -/
theorem resolved_of_answer_error {c : Call} {e : ReferenceError} (h : r.answer c = .error e) :
    (r.after [c]).resolved = none := by
  rw [resolved_call]
  cases hr : r.resolved with
  | some held =>
    rw [answer_of_resolved hr] at h
    cases h
  | none =>
    rw [answer_of_unresolved hr] at h
    rw [h]
    rfl

end

/-! ## All calls -/

/-- After any calls, a resolver holds what it held before, or the first set that one of them could
resolve: by induction on the calls. -/
theorem resolved_after (r : Resolver) (calls : List Call) :
    (r.after calls).resolved = r.resolved.or (calls.findSome? (·.attempt.toOption)) := by
  induction calls generalizing r with
  | nil =>
    rw [List.findSome?_nil, Option.or_none]
    rfl
  | cons c calls ih =>
    rw [after_cons, ih, resolved_call, Option.or_assoc, List.findSome?_cons]
    cases c.attempt.toOption <;> rfl

/-- A resolver is written once. A call that returns an error leaves it unresolved, and the next
call, whatever was asked before, returns what it resolves from what the sources answer then. Once a
call returns a set, that is what the resolver holds, and every later call returns it, cancelled or
not and whatever the sources would answer by then. -/
theorem resolved_once (before : List Call) (c : Call) :
    (∀ e, (after {} before).answer c = .error e →
      (after {} (before ++ [c])).resolved = none ∧
      ∀ d, (after {} (before ++ [c])).answer d = d.attempt) ∧
    (∀ set, (after {} before).answer c = .ok set → ∀ later,
      (after {} (before ++ c :: later)).resolved = some set ∧
      ∀ d, (after {} (before ++ c :: later)).answer d = .ok set) := by
  constructor
  · intro e he
    have hcall : (after {} (before ++ [c])).resolved = none := by
      rw [after_append, resolved_of_answer_error he]
    exact ⟨hcall, answer_of_unresolved hcall⟩
  · intro set hset later
    have hlater : (after {} (before ++ c :: later)).resolved = some set := by
      rw [after_append, after_cons, resolved_after, resolved_of_answer_ok hset, Option.some_or]
    exact ⟨hlater, answer_of_resolved hlater⟩

/-! ## A library that comes late -/

/-- A source that lists a library and has no bytes for it. -/
def lacking : LibrarySource :=
  .ofList [("L", none)]

def complete : LibrarySource :=
  .ofList [("L", some (Pack.utf8 "type A {}"))]

/-- A call fails for lack of the library, the next one is cancelled at once and the third when it
has read the text of the library. The fourth resolves it, and from then on neither the lack nor
being cancelled matters. -/
theorem resolved_once_late :
    let failed : List Call := [⟨[lacking], none⟩, ⟨[complete], some 0⟩, ⟨[complete], some 2⟩]
    (after {} (failed.take 1)).answer ⟨[complete], some 0⟩ = .error .cancelled ∧
    (after {} (failed.take 2)).answer ⟨[complete], some 2⟩ = .error .cancelled ∧
    (after {} failed).answer ⟨[complete], none⟩ = (Call.mk [complete] none).attempt ∧
    (Call.mk [complete] none).attempt.isOk = true ∧
    (after {} (failed ++ [⟨[complete], none⟩])).answer ⟨[lacking], some 0⟩ =
      (Call.mk [complete] none).attempt := by
  intro failed
  have hsecond : (after {} (failed.take 1)).answer ⟨[complete], some 0⟩ = .error .cancelled := rfl
  have hgivesUp : (Call.mk [complete] (some 2)).attempt = .error .cancelled := by
    have hends : (Call.mk [complete] (some 2)).attempt.map (fun _ => ()) = .error .cancelled := by
      decide +kernel
    cases h : (Call.mk [complete] (some 2)).attempt <;> rw [h] at hends <;> cases hends
    rfl
  have hthird : (after {} (failed.take 2)).answer ⟨[complete], some 2⟩ = .error .cancelled :=
    (((resolved_once (failed.take 1) ⟨[complete], some 0⟩).1 _ hsecond).2 _).trans hgivesUp
  have hok : (Call.mk [complete] none).attempt.isOk = true := by decide +kernel
  have hfourth := ((resolved_once (failed.take 2) ⟨[complete], some 2⟩).1 _ hthird).2
    ⟨[complete], none⟩
  refine ⟨hsecond, hthird, hfourth, hok, ?_⟩
  cases hset : (Call.mk [complete] none).attempt with
  | error e =>
    rw [hset] at hok
    cases hok
  | ok set =>
    exact ((resolved_once failed ⟨[complete], none⟩).2 set (hfourth.trans hset) []).2
      ⟨[lacking], some 0⟩

end Resolver

end GenLang
