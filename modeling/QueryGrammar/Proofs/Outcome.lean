/-
QueryGrammar/Proofs/Outcome.lean

How computations with notices end.

A chain of steps succeeds exactly if each step does, so success is read off step by step
(`outcome_bind_eq_ok_iff`, `outcome_mapM_eq_ok_iff`); what the outcomes say does not depend on the
notices.  For failure the useful notion is closed under the same steps: `FailsOnly P x` says that
whatever failure ends `x` has the property `P`.  With the empty property it says that `x` succeeds
(`failsOnly_false_iff`).  Of two computations `Alike R x y` says that they end alike: with results
related by `R`, or with the same failure.
-/
import Mathlib.Data.List.Forall2
import QueryGrammar.Logged

namespace QueryGrammar

variable {α β : Type}

/-! ### Success -/

theorem bind_eq_ok_iff {ε : Type} {x : Except ε α} {f : α → Except ε β} {b : β} :
    x >>= f = .ok b ↔ ∃ a, x = .ok a ∧ f a = .ok b := by
  rcases x with e | a <;> simp [Bind.bind, Except.bind]

theorem map_eq_ok_iff {ε : Type} {x : Except ε α} {f : α → β} {b : β} :
    f <$> x = .ok b ↔ ∃ a, x = .ok a ∧ f a = b := by
  rcases x with e | a <;> simp [Functor.map, Except.map]

/-- A list of computations succeeds with the list of the results of each. -/
theorem mapM_eq_ok_iff {ε : Type} {f : α → Except ε β} {l : List α} {bs : List β} :
    l.mapM f = .ok bs ↔ List.Forall₂ (fun a b => f a = .ok b) l bs := by
  induction l generalizing bs with
  | nil => simp [pure, Except.pure, eq_comm]
  | cons a l ih =>
    simp only [List.mapM_cons, bind_eq_ok_iff, ih]
    constructor
    · rintro ⟨b, hb, bs', hbs', h⟩
      cases h
      exact .cons hb hbs'
    · intro h
      cases h with
      | cons hb hbs' => exact ⟨_, hb, _, hbs', rfl⟩

namespace Logged

@[simp] theorem outcome_pure (a : α) : (pure a : Logged α).outcome = .ok a := rfl

@[simp] theorem outcome_fail (e : Failure) : (fail e : Logged α).outcome = .error e := rfl

@[simp] theorem outcome_liftM (x : Except Failure α) : (liftM x : Logged α).outcome = x := rfl

theorem liftM_ok (a : α) : (liftM (Except.ok a : Except Failure α) : Logged α) = pure a := rfl

@[simp] theorem outcome_bind_eq_ok_iff {x : Logged α} {f : α → Logged β} {b : β} :
    (x >>= f).outcome = .ok b ↔ ∃ a, x.outcome = .ok a ∧ (f a).outcome = .ok b := by
  rw [outcome_bind, bind_eq_ok_iff]

/-- The outcome of a chain depends on the outcomes of its steps. -/
theorem outcome_bind_congr {x y : Logged α} {f g : α → Logged β} (hx : x.outcome = y.outcome)
    (hf : ∀ a, (f a).outcome = (g a).outcome) : (x >>= f).outcome = (y >>= g).outcome := by
  rw [outcome_bind, outcome_bind, hx]
  congr 1
  funext a
  exact hf a

/-- What follows a computation matters only for what it results in. -/
theorem bind_congr_of_ok {x : Logged α} {f g : α → Logged β}
    (h : ∀ a, x.outcome = .ok a → f a = g a) : x >>= f = x >>= g := by
  rcases x with ⟨notices, e | a⟩
  · rfl
  · show bind ⟨notices, .ok a⟩ f = bind ⟨notices, .ok a⟩ g
    simp only [bind, h a rfl]

theorem outcome_mapM (f : α → Logged β) (l : List α) :
    (l.mapM f).outcome = l.mapM fun a => (f a).outcome := by
  induction l with
  | nil => rfl
  | cons a l ih =>
    simp only [List.mapM_cons, outcome_bind, ih, outcome_pure]
    rfl

theorem outcome_mapM_eq_ok_iff {f : α → Logged β} {l : List α} {bs : List β} :
    (l.mapM f).outcome = .ok bs ↔ List.Forall₂ (fun a b => (f a).outcome = .ok b) l bs := by
  rw [outcome_mapM, mapM_eq_ok_iff]

/-! ### Failure -/

/-- Every failure that ends the computation has the property. -/
structure FailsOnly (P : Failure → Prop) (x : Logged α) : Prop where
  of_error : ∀ e, x.outcome = .error e → P e

variable {P : Failure → Prop}

/-- A computation that cannot fail succeeds. -/
theorem failsOnly_false_iff {x : Logged α} :
    x.FailsOnly (fun _ => False) ↔ ∃ a, x.outcome = .ok a := by
  rcases h : x.outcome with e | a
  · simp only [reduceCtorEq, exists_false, iff_false]
    exact fun hx => hx.of_error e h
  · simp only [Except.ok.injEq, exists_eq', iff_true]
    exact ⟨fun e he => by simp [h] at he⟩

theorem failsOnly_pure (a : α) : (pure a : Logged α).FailsOnly P := by
  constructor
  intro e h
  simp at h

/-- What the outcomes have in common, the notices being left aside. -/
theorem FailsOnly.of_outcome_eq {x y : Logged α} (hx : x.FailsOnly P)
    (h : y.outcome = x.outcome) : y.FailsOnly P := by
  constructor
  intro e he
  rw [h] at he
  exact hx.of_error e he

theorem FailsOnly.bind {x : Logged α} {f : α → Logged β} (hx : x.FailsOnly P)
    (hf : ∀ a, x.outcome = .ok a → (f a).FailsOnly P) : (x >>= f).FailsOnly P := by
  constructor
  intro e h
  rw [outcome_bind] at h
  rcases ha : x.outcome with e' | a
  · rw [ha] at h
    obtain rfl : e' = e := by simpa [Bind.bind, Except.bind] using h
    exact hx.of_error _ ha
  · rw [ha] at h
    exact (hf a ha).of_error e h

theorem failsOnly_mapM {f : α → Logged β} {l : List α} (h : ∀ a ∈ l, (f a).FailsOnly P) :
    (l.mapM f).FailsOnly P := by
  induction l with
  | nil => exact failsOnly_pure _
  | cons a l ih =>
    rw [List.mapM_cons]
    apply (h a (by simp)).bind
    intro b _
    apply FailsOnly.bind
    · exact ih fun a' ha' => h a' (by simp [ha'])
    · exact fun bs _ => failsOnly_pure _

/-! Failures of computations without notices are those of their steps, too. -/

theorem failsOnly_liftM {x : Except Failure α} (h : ∀ e, x = .error e → P e) :
    (liftM x : Logged α).FailsOnly P :=
  ⟨h⟩

theorem FailsOnly.liftM_bind {x : Except Failure α} {f : α → Except Failure β}
    (hx : (liftM x : Logged α).FailsOnly P)
    (hf : ∀ a, x = .ok a → (liftM (f a) : Logged β).FailsOnly P) :
    (liftM (x >>= f) : Logged β).FailsOnly P := by
  apply (hx.bind hf).of_outcome_eq
  rw [outcome_bind]
  rfl

theorem failsOnly_liftM_mapM {f : α → Except Failure β} {l : List α}
    (h : ∀ a ∈ l, (liftM (f a) : Logged β).FailsOnly P) :
    (liftM (l.mapM f) : Logged (List β)).FailsOnly P := by
  apply (failsOnly_mapM h).of_outcome_eq
  rw [outcome_mapM]
  rfl

/-! ### Two computations -/

variable {γ δ : Type}

/-- The computations end alike: both succeed, with related results, or both fail for one cause. -/
inductive Alike (R : α → β → Prop) (x : Logged α) (y : Logged β) : Prop
  | ok {a : α} {b : β} (left : x.outcome = .ok a) (right : y.outcome = .ok b) (related : R a b)
  | error {e : Failure} (left : x.outcome = .error e) (right : y.outcome = .error e)

theorem alike_self {R : α → α → Prop} (refl : ∀ a, R a a) (x : Logged α) : Alike R x x := by
  rcases h : x.outcome with e | a
  · exact .error h h
  · exact .ok h h (refl a)

theorem alike_eq_iff {x y : Logged α} : Alike Eq x y ↔ x.outcome = y.outcome := by
  constructor
  · rintro (⟨hx, hy, rfl⟩ | ⟨hx, hy⟩) <;> rw [hx, hy]
  · intro h
    rcases hx : x.outcome with e | a
    · exact .error hx (h ▸ hx)
    · exact .ok hx (h ▸ hx) rfl

/-- What ends alike is told by the outcomes. -/
theorem Alike.of_outcome_eq {R : α → β → Prop} {x x' : Logged α} {y y' : Logged β}
    (h : Alike R x y) (hx : x'.outcome = x.outcome) (hy : y'.outcome = y.outcome) :
    Alike R x' y' := by
  rcases h with ⟨hleft, hright, hab⟩ | ⟨hleft, hright⟩
  · exact .ok (hx.trans hleft) (hy.trans hright) hab
  · exact .error (hx.trans hleft) (hy.trans hright)

/-- Chains of steps that end alike end alike. -/
theorem Alike.bind {R : α → β → Prop} {S : γ → δ → Prop} {x : Logged α} {y : Logged β}
    {f : α → Logged γ} {g : β → Logged δ} (h : Alike R x y)
    (hfg : ∀ a b, R a b → Alike S (f a) (g b)) : Alike S (x >>= f) (y >>= g) := by
  rcases h with ⟨hx, hy, hab⟩ | ⟨hx, hy⟩
  · apply (hfg _ _ hab).of_outcome_eq
    · rw [outcome_bind, hx]
      rfl
    · rw [outcome_bind, hy]
      rfl
  · apply Alike.error
    · rw [outcome_bind, hx]
      rfl
    · rw [outcome_bind, hy]
      rfl

theorem alike_pure {R : α → β → Prop} {a : α} {b : β} (h : R a b) :
    Alike R (pure a : Logged α) (pure b : Logged β) :=
  .ok rfl rfl h

end Logged

end QueryGrammar
