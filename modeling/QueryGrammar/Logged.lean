/-
QueryGrammar/Logged.lean

Computations that leave notices.

A notice tells of a choice that may not be the intended one.  Notices are kept when the
computation fails later, so a `Logged` value is an outcome together with the notices that were
left on the way to it, in order.
-/
import QueryGrammar.Failure

namespace QueryGrammar

/-- Something worth telling about the encoding of a query. -/
inductive Notice where
  /-- The table of the wildcard column is a guess. -/
  | ambiguousWildcard (question query : String)
  /-- Only the first of so many HAVING conditions is encoded. -/
  | extraHaving (count : Nat) (question : String)
  deriving DecidableEq

/-- The text of a notice. -/
def Notice.message : Notice → String
  | .ambiguousWildcard _ _ => "Ambiguous table for column *, using the first FROM table"
  | .extraHaving count question =>
    "Encoding only the first of " ++ toString count ++ " HAVING conditions: " ++ question

/-- An outcome and the notices left on the way to it. -/
structure Logged (α : Type) where
  notices : List Notice
  outcome : Except Failure α

namespace Logged

variable {α β γ : Type}

/-- Fail without a notice. -/
def fail (failure : Failure) : Logged α := ⟨[], .error failure⟩

/-- Leave a notice. -/
def notice (n : Notice) : Logged Unit := ⟨[n], .ok ()⟩

/-- An outcome without notices. -/
def ofExcept (outcome : Except Failure α) : Logged α := ⟨[], outcome⟩

/-- Go on with the result of a computation; a failure ends it. -/
def bind (x : Logged α) (f : α → Logged β) : Logged β :=
  match x.outcome with
  | .ok a => ⟨x.notices ++ (f a).notices, (f a).outcome⟩
  | .error e => ⟨x.notices, .error e⟩

instance : Monad Logged where
  pure a := ⟨[], .ok a⟩
  bind := bind

instance : MonadLift (Except Failure) Logged := ⟨ofExcept⟩

/-! ### Laws -/

theorem pure_bind (a : α) (f : α → Logged β) : (pure a : Logged α) >>= f = f a := by
  show bind ⟨[], .ok a⟩ f = f a
  simp [bind]

theorem bind_pure (x : Logged α) : x >>= pure = x := by
  show bind x (fun a => ⟨[], .ok a⟩) = x
  rcases x with ⟨notices, _ | a⟩ <;> simp [bind]

theorem bind_assoc (x : Logged α) (f : α → Logged β) (g : β → Logged γ) :
    x >>= f >>= g = x >>= fun a => f a >>= g := by
  show bind (bind x f) g = bind x (fun a => bind (f a) g)
  rcases x with ⟨notices, _ | a⟩
  · simp [bind]
  · simp only [bind]
    rcases f a with ⟨notices', _ | b⟩ <;> simp

/-- The outcome of a computation does not depend on the notices. -/
theorem outcome_bind (x : Logged α) (f : α → Logged β) :
    (x >>= f).outcome = x.outcome >>= fun a => (f a).outcome := by
  show (bind x f).outcome = x.outcome >>= fun a => (f a).outcome
  rcases x with ⟨notices, _ | a⟩ <;> rfl

instance : LawfulMonad Logged := LawfulMonad.mk' Logged bind_pure pure_bind bind_assoc

end Logged

end QueryGrammar
