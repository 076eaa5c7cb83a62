import LuaSandbox.Foundation.Computation
import Mathlib.Logic.Relation

/-!
# Fuel

Computations that are given fuel, and stop with an error of their own when it is
used up.  A computation ends if some amount of fuel is enough.
-/

namespace LuaSandbox
namespace Foundation
namespace Computation

variable {ε σ α β : Type}

/-- The computation does not stop with the error `stop`. -/
def Completes (stop : ε) (x : Computation ε σ α) (s : σ) : Prop :=
  forall t, run x s ≠ (Except.error stop, t)

/-- The computation never stops with the error `stop`. -/
def Total (stop : ε) (x : Computation ε σ α) : Prop :=
  forall s, Completes stop x s

section

variable {stop : ε} {x : Computation ε σ α} {f : α -> Computation ε σ β}
  {s : σ}

theorem completes_bind : Completes stop (x >>= f) s <->
    Completes stop x s ∧
      forall a t, run x s = (Except.ok a, t) -> Completes stop (f a) t := by
  unfold Completes
  cases hrun : run x s with
  | mk r t =>
      cases r with
      | error e =>
          rw [run_bind_error hrun]
          constructor
          · intro h
            refine ⟨fun u hstop => ?_, fun a u hok => nomatch hok⟩
            cases hstop
            exact h t rfl
          · rintro ⟨h, _⟩ u hstop
            cases hstop
            exact h t rfl
      | ok a =>
          rw [run_bind_ok hrun]
          constructor
          · intro h
            refine ⟨fun u hstop => (nomatch hstop), fun b u hok => ?_⟩
            cases hok
            exact h
          · rintro ⟨_, h⟩
            exact h a t rfl

theorem Total.pure (a : α) :
    Total stop (Pure.pure a : Computation ε σ α) := by
  intro s t h
  cases h

theorem Total.bind (hx : Total stop x) (hf : forall a, Total stop (f a)) :
    Total stop (x >>= f) :=
  fun s => completes_bind.mpr ⟨hx s, fun a t _ => hf a t⟩

theorem Total.ite {p : Prop} [Decidable p] {y : Computation ε σ α}
    (hx : Total stop x) (hy : Total stop y) :
    Total stop (if p then x else y) := by
  split
  · exact hx
  · exact hy

theorem Total.completes_bind (hx : Total stop x) :
    Completes stop (x >>= f) s <->
      forall a t, run x s = (Except.ok a, t) -> Completes stop (f a) t :=
  Computation.completes_bind.trans (and_iff_right (hx s))

theorem completes_bind_total (hf : forall a, Total stop (f a)) :
    Completes stop (x >>= f) s <-> Completes stop x s :=
  completes_bind.trans (and_iff_left (fun a t _ => hf a t))

end

/-!
## Families
-/

/-- More fuel changes nothing once there is enough. -/
def Fueled (stop : ε) (x : Nat -> Computation ε σ α) : Prop :=
  forall n, Extends stop (x n) (x (n + 1))

/-- Some amount of fuel is enough. -/
def Ends (stop : ε) (x : Nat -> Computation ε σ α) (s : σ) : Prop :=
  exists n, Completes stop (x n) s

section

variable {stop : ε} {x : Nat -> Computation ε σ α} {s : σ} {n m : Nat}

theorem Extends.run_eq {x y : Computation ε σ α} (h : Extends stop x y)
    (hx : Completes stop x s) : run x s = run y s := by
  rcases h s with ⟨t, hstop⟩ | hsame
  · exact absurd hstop (hx t)
  · exact hsame

theorem Fueled.of_le (hx : Fueled stop x) (hle : n <= m) :
    Extends stop (x n) (x m) := by
  induction hle with
  | refl => exact Extends.refl _
  | step _ ih => exact ih.trans (hx _)

theorem Fueled.run_eq_of_le (hx : Fueled stop x) (hle : n <= m)
    (hn : Completes stop (x n) s) : run (x m) s = run (x n) s :=
  ((hx.of_le hle).run_eq hn).symm

theorem Fueled.completes_of_le (hx : Fueled stop x) (hle : n <= m)
    (hn : Completes stop (x n) s) : Completes stop (x m) s := by
  unfold Completes
  rw [hx.run_eq_of_le hle hn]
  exact hn

/-- Two amounts of fuel that are enough give the same. -/
theorem Fueled.run_eq (hx : Fueled stop x) (hn : Completes stop (x n) s)
    (hm : Completes stop (x m) s) : run (x n) s = run (x m) s := by
  rcases Nat.le_total n m with hle | hle
  · exact (hx.run_eq_of_le hle hn).symm
  · exact hx.run_eq_of_le hle hm

theorem completes_of_ok {y : Computation ε σ α} {a : α} {t : σ}
    (h : run y s = (Except.ok a, t)) : Completes stop y s := by
  intro u hstop
  rw [h] at hstop
  cases hstop

end

section

variable {stop : ε} {s : σ}

/-- What comes first needs no fuel. -/
theorem Total.ends_bind {x : Computation ε σ α}
    {f : Nat -> α -> Computation ε σ β} (hx : Total stop x) :
    Ends stop (fun n => x >>= f n) s <->
      forall a t, run x s = (Except.ok a, t) ->
        Ends stop (fun n => f n a) t := by
  unfold Ends
  cases hrun : run x s with
  | mk r t =>
      cases r with
      | error e =>
          refine iff_of_true ⟨0, hx.completes_bind.mpr ?_⟩ ?_
          · intro a u hok
            rw [hrun] at hok
            cases hok
          · exact fun a u hok => nomatch hok
      | ok a =>
          constructor
          · rintro ⟨n, hn⟩ b u hok
            cases hok
            exact ⟨n, hx.completes_bind.mp hn a t hrun⟩
          · intro h
            rcases h a t rfl with ⟨n, hn⟩
            refine ⟨n, hx.completes_bind.mpr ?_⟩
            intro b u hok
            rw [hrun] at hok
            cases hok
            exact hn

/-- What comes last needs no fuel. -/
theorem ends_bind_total {x : Nat -> Computation ε σ α}
    {f : α -> Computation ε σ β} (hf : forall a, Total stop (f a)) :
    Ends stop (fun n => x n >>= f) s <-> Ends stop x s :=
  exists_congr (fun _ => completes_bind_total hf)

end

/-!
## Recursions
-/

section

open Relation (ReflTransGen)

variable {X : Type} {R : X -> X -> Prop} {P : Nat -> X -> Prop}
  {A : X -> Prop}

/-- A recursion whose calls are the steps of `R`, and that needs `A` of each
argument, has enough fuel if and only if `R` has no infinite path from its
argument and `A` holds on all paths. -/
theorem exists_iff_acc (hzero : forall x, ¬ P 0 x)
    (hsucc : forall n x, P (n + 1) x -> A x ∧ forall y, R x y -> P n y)
    (hexists : forall x, A x -> (forall y, R x y -> exists n, P n y) ->
      exists n, P n x) (x : X) :
    (exists n, P n x) <->
      Acc (fun y x => R x y) x ∧ forall y, ReflTransGen R x y -> A y := by
  constructor
  · rintro ⟨n, h⟩
    induction n generalizing x with
    | zero => exact absurd h (hzero x)
    | succ n ih =>
        rcases hsucc n x h with ⟨hx, hcalls⟩
        refine ⟨Acc.intro x (fun y hy => (ih y (hcalls y hy)).1), ?_⟩
        intro y hpath
        rcases hpath.cases_head with rfl | ⟨z, hstep, hrest⟩
        · exact hx
        · exact (ih z (hcalls z hstep)).2 y hrest
  · rintro ⟨hacc, hpaths⟩
    induction hacc with
    | intro x _ ih =>
        refine hexists x (hpaths x ReflTransGen.refl) (fun y hy => ?_)
        exact ih y hy (fun z hz => hpaths z (ReflTransGen.head hy hz))

end

/-!
## Loops
-/

section

open Relation (ReflTransGen)

variable {X : Type} {stop : ε} (state : X -> σ)
  (body : X -> Nat -> Computation ε σ Unit) (after : X -> σ -> Option X)

/-- One turn of a loop from `x` to `y`. -/
def Turn (x y : X) : Prop :=
  exists n t, run (body x n) (state x) = (Except.ok (), t) ∧
    after x t = some y

variable {P : Nat -> X -> Prop}

/-- A loop ends if and only if it takes finitely many turns and each of them
ends. -/
theorem loop_ends_iff (hbody : forall x, Fueled stop (body x))
    (hzero : forall x, ¬ P 0 x) (hmono : forall n m x, n <= m -> P n x -> P m x)
    (hsucc : forall n x, P (n + 1) x <-> Completes stop (body x n) (state x) ∧
      forall t y, run (body x n) (state x) = (Except.ok (), t) ->
        after x t = some y -> P n y) (x : X) :
    (exists n, P n x) <->
      Acc (fun y x => Turn state body after x y) x ∧
        forall y, ReflTransGen (Turn state body after) x y ->
          Ends stop (body y) (state y) := by
  refine exists_iff_acc hzero ?_ ?_ x
  · intro n x h
    rcases (hsucc n x).mp h with ⟨hcompletes, hrest⟩
    refine ⟨⟨n, hcompletes⟩, ?_⟩
    rintro y ⟨m, t, hrun, hafter⟩
    have hsame := (hbody x).run_eq hcompletes (completes_of_ok hrun)
    exact hrest t y (hsame.trans hrun) hafter
  · rintro x ⟨n, hcompletes⟩ hturns
    cases hrun : run (body x n) (state x) with
    | mk r t =>
        cases r with
        | error e =>
            refine ⟨n + 1, (hsucc n x).mpr ⟨hcompletes, ?_⟩⟩
            intro u y hok
            rw [hrun] at hok
            cases hok
        | ok =>
            cases hafter : after x t with
            | none =>
                refine ⟨n + 1, (hsucc n x).mpr ⟨hcompletes, ?_⟩⟩
                intro u y hok hy
                rw [hrun] at hok
                cases hok
                rw [hafter] at hy
                cases hy
            | some y =>
                rcases hturns y ⟨n, t, hrun, hafter⟩ with ⟨m, hm⟩
                have hn : n <= max n m := Nat.le_max_left n m
                refine ⟨max n m + 1, (hsucc _ x).mpr
                  ⟨(hbody x).completes_of_le hn hcompletes, ?_⟩⟩
                intro u z hok hz
                rw [(hbody x).run_eq_of_le hn hcompletes, hrun] at hok
                cases hok
                rw [hafter] at hz
                cases hz
                exact hmono m _ y (Nat.le_max_right n m) hm

end

end Computation
end Foundation
end LuaSandbox
