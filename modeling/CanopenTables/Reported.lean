import CanopenTables.Notice

/-!
# Computations that report

A `Reported` result is an outcome together with the notices that were given on the way to it.  What
was reported before a failure is kept.  Each projection of a sequence has one equation, so notices
can be put aside where only the outcome matters.
-/

namespace CanopenTables

/-- An outcome and what was reported on the way to it. -/
structure Reported (α : Type) where
  /-- The notices, the earliest first. -/
  notices : List Notice
  /-- The result, or the error that ended the computation. -/
  outcome : Except GenerationError α

namespace Reported

variable {α β : Type}

/-- Goes on with the result of a computation, unless it failed. -/
def andThen (x : Reported α) (f : α → Reported β) : Reported β :=
  match x.outcome with
  | .ok a => ⟨x.notices ++ (f a).notices, (f a).outcome⟩
  | .error e => ⟨x.notices, .error e⟩

instance : Monad Reported where
  pure a := ⟨[], .ok a⟩
  bind := andThen

def fail (e : GenerationError) : Reported α := ⟨[], .error e⟩

/-- A result that reports nothing. -/
def ofExcept (x : Except GenerationError α) : Reported α := ⟨[], x⟩

instance : MonadLift (Except GenerationError) Reported := ⟨ofExcept⟩

def report (n : Notice) : Reported Unit := ⟨[n], .ok ()⟩

def reportAll (ns : List Notice) : Reported Unit := ⟨ns, .ok ()⟩

/-! ### Projections -/

@[simp] theorem outcome_pure (a : α) : (pure a : Reported α).outcome = .ok a := rfl

@[simp] theorem notices_pure (a : α) : (pure a : Reported α).notices = [] := rfl

@[simp] theorem outcome_bind (x : Reported α) (f : α → Reported β) :
    (x >>= f).outcome = x.outcome >>= fun a => (f a).outcome := by
  show (x.andThen f).outcome = _
  unfold andThen
  cases x.outcome <;> rfl

theorem notices_bind_of_ok {x : Reported α} {a : α} (h : x.outcome = .ok a)
    (f : α → Reported β) : (x >>= f).notices = x.notices ++ (f a).notices := by
  show (x.andThen f).notices = _
  unfold andThen
  rw [h]

@[simp] theorem outcome_ofExcept (x : Except GenerationError α) : (ofExcept x).outcome = x := rfl

@[simp] theorem outcome_report (n : Notice) : (report n).outcome = .ok () := rfl

theorem ext {x y : Reported α} (hn : x.notices = y.notices) (ho : x.outcome = y.outcome) :
    x = y := by
  cases x
  cases y
  simp only at hn ho
  rw [hn, ho]

instance : LawfulMonad Reported := LawfulMonad.mk' _
  (by
    intro α x
    show x.andThen _ = x
    unfold andThen
    cases h : x.outcome <;> exact ext (by simp) (by simp [h]))
  (by
    intro α β a f
    show andThen _ f = f a
    exact ext (by simp [andThen]) rfl)
  (by
    intro α β γ x f g
    show (x.andThen f).andThen g = x.andThen fun a => (f a).andThen g
    unfold andThen
    cases hx : x.outcome with
    | error e => simp
    | ok a =>
      cases hf : (f a).outcome with
      | error e => simp [hf]
      | ok b => simp [hf])

theorem outcome_mapM (f : α → Reported β) (l : List α) :
    (l.mapM f).outcome = l.mapM fun a => (f a).outcome := by
  induction l with
  | nil => rfl
  | cons a l ih =>
    rw [List.mapM_cons, List.mapM_cons, outcome_bind]
    congr 1
    funext b
    rw [outcome_bind, ih]
    rfl

end Reported
end CanopenTables
