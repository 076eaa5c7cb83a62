import Mathlib.Logic.Basic

/-!
# Computations

Computations that change a state and may stop with an error, and what they do
to the state.
-/

namespace LuaSandbox
namespace Foundation

/-- The state is kept when an error stops the computation. -/
abbrev Computation (ε σ α : Type) : Type := ExceptT ε (StateM σ) α

namespace Computation

variable {ε σ α β : Type}

def run (x : Computation ε σ α) (s : σ) : Except ε α × σ :=
  (ExceptT.run x).run s

def ofFun (f : σ -> Except ε α × σ) : Computation ε σ α :=
  ExceptT.mk f

@[simp] theorem run_ofFun (f : σ -> Except ε α × σ) (s : σ) :
    run (ofFun f) s = f s :=
  rfl

@[simp] theorem run_pure (a : α) (s : σ) :
    run (pure a : Computation ε σ α) s = (Except.ok a, s) :=
  rfl

@[simp] theorem run_throw (e : ε) (s : σ) :
    run (throw e : Computation ε σ α) s = (Except.error e, s) :=
  rfl

theorem run_bind (x : Computation ε σ α) (f : α -> Computation ε σ β)
    (s : σ) :
    run (x >>= f) s =
      match run x s with
      | (Except.ok a, t) => run (f a) t
      | (Except.error e, t) => (Except.error e, t) := by
  change run (ExceptT.mk ((ExceptT.run x) >>= ExceptT.bindCont f)) s = _
  change ExceptT.bindCont f (run x s).1 (run x s).2 = _
  rcases run x s with ⟨e | a, t⟩
  · rfl
  · rfl

theorem run_bind_ok {x : Computation ε σ α} {f : α -> Computation ε σ β}
    {s t : σ} {a : α} (h : run x s = (Except.ok a, t)) :
    run (x >>= f) s = run (f a) t := by
  rw [run_bind, h]

theorem run_bind_error {x : Computation ε σ α}
    {f : α -> Computation ε σ β} {s t : σ} {e : ε}
    (h : run x s = (Except.error e, t)) :
    run (x >>= f) s = (Except.error e, t) := by
  rw [run_bind, h]

/-- A sequence ends if both parts do. -/
theorem run_bind_eq_ok {x : Computation ε σ α} {f : α -> Computation ε σ β}
    {s u : σ} {b : β} (h : run (x >>= f) s = (Except.ok b, u)) :
    exists a t, run x s = (Except.ok a, t) ∧ run (f a) t = (Except.ok b, u) := by
  rw [run_bind] at h
  generalize run x s = r at h ⊢
  rcases r with ⟨e | a, t⟩
  · cases h
  · exact ⟨a, t, rfl, h⟩

/-- An error comes from one of the parts. -/
theorem run_bind_eq_error {x : Computation ε σ α}
    {f : α -> Computation ε σ β} {s u : σ} {e : ε}
    (h : run (x >>= f) s = (Except.error e, u)) :
    run x s = (Except.error e, u) ∨
      exists a t, run x s = (Except.ok a, t) ∧
        run (f a) t = (Except.error e, u) := by
  rw [run_bind] at h
  generalize run x s = r at h ⊢
  rcases r with ⟨e' | a, t⟩
  · cases h
    exact Or.inl rfl
  · exact Or.inr ⟨a, t, rfl, h⟩

/-!
## Extensions
-/

/-- `y` does what `x` does, but where `x` stops with the error `stop`. -/
def Extends (stop : ε) (x y : Computation ε σ α) : Prop :=
  forall s, (exists t, run x s = (Except.error stop, t)) ∨ run x s = run y s

namespace Extends

variable {stop : ε} {x y z : Computation ε σ α}

theorem refl (x : Computation ε σ α) : Extends stop x x :=
  fun _ => Or.inr rfl

theorem trans (hxy : Extends stop x y) (hyz : Extends stop y z) :
    Extends stop x z := by
  intro s
  rcases hxy s with hstop | hsame
  · exact Or.inl hstop
  · rw [hsame]
    exact hyz s

theorem throw (y : Computation ε σ α) :
    Extends stop (MonadExceptOf.throw stop : Computation ε σ α) y :=
  fun s => Or.inl ⟨s, rfl⟩

theorem bind {f g : α -> Computation ε σ β} (hxy : Extends stop x y)
    (hfg : forall a, Extends stop (f a) (g a)) :
    Extends stop (x >>= f) (y >>= g) := by
  intro s
  rw [run_bind, run_bind]
  rcases hxy s with ⟨t, hstop⟩ | hsame
  · rw [hstop]
    exact Or.inl ⟨t, rfl⟩
  · rw [← hsame]
    generalize run x s = r
    rcases r with ⟨e | a, t⟩
    · exact Or.inr rfl
    · exact hfg a t

theorem run_eq_ok {s t : σ} {a : α} (h : Extends stop x y)
    (hrun : run x s = (Except.ok a, t)) : run y s = (Except.ok a, t) := by
  rcases h s with ⟨u, hstop⟩ | hsame
  · rw [hstop] at hrun
    cases hrun
  · rw [← hsame]
    exact hrun

end Extends

end Computation

/-!
## Effects
-/

/-- What may be between the state before a computation and the one behind it,
for a normal end and for an error. -/
structure Effect (σ : Type) where
  done : σ -> σ -> Prop
  failed : σ -> σ -> Prop
  refl : forall s, done s s
  trans : forall s t u, done s t -> done t u -> done s u
  trans_failed : forall s t u, done s t -> failed t u -> failed s u

/-- An effect that does not tell errors from normal ends. -/
def Effect.ofRelation {σ : Type} (R : σ -> σ -> Prop) (refl : forall s, R s s)
    (trans : forall s t u, R s t -> R t u -> R s u) : Effect σ :=
  ⟨R, R, refl, trans, trans⟩

structure HasEffect {ε σ α : Type} (F : Effect σ)
    (x : Computation ε σ α) : Prop where
  done : forall {s a t}, x.run s = (Except.ok a, t) -> F.done s t
  failed : forall {s e t}, x.run s = (Except.error e, t) -> F.failed s t

namespace HasEffect

variable {ε σ α β : Type} {F : Effect σ}

theorem pure (a : α) : HasEffect F (Pure.pure a : Computation ε σ α) where
  done := by
    intro s _ t h
    cases h
    exact F.refl s
  failed := by
    intro s _ t h
    cases h

theorem bind {x : Computation ε σ α} {f : α -> Computation ε σ β}
    (hx : HasEffect F x) (hf : forall a, HasEffect F (f a)) :
    HasEffect F (x >>= f) where
  done := by
    intro s b u h
    rcases Computation.run_bind_eq_ok h with ⟨a, t, hrun, hrest⟩
    exact F.trans _ _ _ (hx.done hrun) ((hf a).done hrest)
  failed := by
    intro s e u h
    rcases Computation.run_bind_eq_error h with hrun | ⟨a, t, hrun, hrest⟩
    · exact hx.failed hrun
    · exact F.trans_failed _ _ _ (hx.done hrun) ((hf a).failed hrest)

/-- The relation is proved of the state behind the computation, however that
ends. -/
theorem ofRun {R : σ -> σ -> Prop} {refl : forall s, R s s}
    {trans : forall s t u, R s t -> R t u -> R s u}
    {x : Computation ε σ α} (h : forall s, R s (x.run s).2) :
    HasEffect (Effect.ofRelation R refl trans) x where
  done := by
    intro s a t hrun
    have hs := h s
    rwa [hrun] at hs
  failed := by
    intro s e t hrun
    have hs := h s
    rwa [hrun] at hs

/-- A part of the state that the computation only looks at. -/
theorem read (f : σ -> α) :
    HasEffect F (Computation.ofFun (fun s => (Except.ok (f s), s)) :
      Computation ε σ α) where
  done := by
    intro s _ t h
    cases h
    exact F.refl s
  failed := by
    intro s _ t h
    cases h

theorem ite {p : Prop} [Decidable p] {x y : Computation ε σ α}
    (hx : HasEffect F x) (hy : HasEffect F y) :
    HasEffect F (if p then x else y) := by
  split
  · exact hx
  · exact hy

end HasEffect

end Foundation
end LuaSandbox
