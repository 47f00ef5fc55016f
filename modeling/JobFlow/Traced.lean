/-!
Computations that tell what they do. A traced computation has an outcome and the messages given on
the way; the messages never influence the outcome.
-/

set_option autoImplicit false

namespace JobFlow

/-- A sequence succeeds when both of its parts do. -/
theorem bind_eq_ok {ε α β : Type} {x : Except ε α} {f : α → Except ε β} {b : β} :
    x >>= f = .ok b ↔ ∃ a, x = .ok a ∧ f a = .ok b := by
  cases x with
  | error e => simp [bind, Except.bind]
  | ok a => simp [bind, Except.bind]

/-- Each result of a successful pass over a list belongs to one of its elements. -/
theorem exists_of_mapM_eq_ok {ε α β : Type} {f : α → Except ε β} {items : List α}
    {results : List β} (h : items.mapM f = .ok results) {result : β} (isResult : result ∈ results) :
    ∃ item ∈ items, f item = .ok result := by
  induction items generalizing results with
  | nil =>
    cases h
    cases isResult
  | cons item rest ih =>
    rw [List.mapM_cons] at h
    obtain ⟨first, isFirst, h⟩ := bind_eq_ok.1 h
    obtain ⟨others, areOthers, h⟩ := bind_eq_ok.1 h
    cases h
    rcases List.mem_cons.1 isResult with rfl | isOther
    · exact ⟨item, List.mem_cons_self, isFirst⟩
    · obtain ⟨source, isSource, same⟩ := ih areOthers isOther
      exact ⟨source, List.mem_cons_of_mem item isSource, same⟩

/-- An outcome with the messages that led to it, oldest first. -/
structure Traced (ε α : Type) where
  outcome : Except ε α
  trace : List String

namespace Traced

variable {ε ε' α β : Type}

/-- Runs the second computation when the first succeeds; the messages of both are kept. -/
def andThen (x : Traced ε α) (f : α → Traced ε β) : Traced ε β :=
  match x.outcome with
  | .error e => ⟨.error e, x.trace⟩
  | .ok a => ⟨(f a).outcome, x.trace ++ (f a).trace⟩

instance : Monad (Traced ε) where
  pure a := ⟨.ok a, []⟩
  bind := andThen

def say (messages : List String) : Traced ε Unit :=
  ⟨.ok (), messages⟩

def quiet (outcome : Except ε α) : Traced ε α :=
  ⟨outcome, []⟩

def mapError (f : ε → ε') (x : Traced ε α) : Traced ε' α :=
  ⟨x.outcome.mapError f, x.trace⟩

@[simp] theorem outcome_pure (a : α) : (pure a : Traced ε α).outcome = .ok a := rfl

@[simp] theorem trace_pure (a : α) : (pure a : Traced ε α).trace = [] := rfl

@[simp] theorem outcome_say (messages : List String) :
    (say messages : Traced ε Unit).outcome = .ok () := rfl

@[simp] theorem outcome_quiet (outcome : Except ε α) : (quiet outcome).outcome = outcome := rfl

@[simp] theorem outcome_mapError (f : ε → ε') (x : Traced ε α) :
    (x.mapError f).outcome = x.outcome.mapError f := rfl

/-- The outcome of a sequence is the sequence of the outcomes. -/
@[simp] theorem outcome_bind (x : Traced ε α) (f : α → Traced ε β) :
    (x >>= f).outcome = x.outcome >>= fun a => (f a).outcome := by
  show (andThen x f).outcome = _
  unfold andThen
  cases x.outcome <;> rfl

theorem outcome_bind_eq_ok {x : Traced ε α} {f : α → Traced ε β} {b : β} :
    (x >>= f).outcome = .ok b ↔ ∃ a, x.outcome = .ok a ∧ (f a).outcome = .ok b := by
  rw [outcome_bind, bind_eq_ok]

/-- After a success the rest decides. -/
theorem outcome_bind_of_ok {x : Traced ε α} {a : α} (h : x.outcome = .ok a) (f : α → Traced ε β) :
    (x >>= f).outcome = (f a).outcome := by
  rw [outcome_bind, h]
  rfl

/-- The first error ends a sequence. -/
theorem outcome_bind_of_error {x : Traced ε α} {e : ε} (h : x.outcome = .error e)
    (f : α → Traced ε β) : (x >>= f).outcome = .error e := by
  rw [outcome_bind, h]
  rfl

theorem outcome_mapError_of_ok {x : Traced ε α} {a : α} (h : x.outcome = .ok a) (f : ε → ε') :
    (x.mapError f).outcome = .ok a := by
  rw [outcome_mapError, h]
  rfl

theorem outcome_mapError_of_error {x : Traced ε α} {e : ε} (h : x.outcome = .error e)
    (f : ε → ε') : (x.mapError f).outcome = .error (f e) := by
  rw [outcome_mapError, h]
  rfl

theorem outcome_mapError_eq_ok {f : ε → ε'} {x : Traced ε α} {a : α} :
    (x.mapError f).outcome = .ok a ↔ x.outcome = .ok a := by
  rw [outcome_mapError]
  cases x.outcome with
  | error e =>
    constructor
    · intro h
      cases h
    · intro h
      cases h
  | ok b =>
    constructor
    · intro h
      cases h
      rfl
    · intro h
      cases h
      rfl

end Traced

end JobFlow
