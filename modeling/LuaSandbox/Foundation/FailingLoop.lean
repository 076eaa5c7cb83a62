import Mathlib.Data.List.Basic

/-!
# Loops that may fail

A loop over a list whose steps may fail: when it comes to its end, and the rule
of the invariant.
-/

namespace LuaSandbox
namespace Foundation

variable {alpha epsilon sigma : Type}
variable {step : sigma -> alpha -> Except epsilon sigma}

theorem except_bind_ok {beta gamma : Type} {x : Except epsilon beta}
    {f : beta -> Except epsilon gamma} {c : gamma} :
    x >>= f = Except.ok c <->
      exists b, x = Except.ok b ∧ f b = Except.ok c := by
  cases x with
  | error e =>
      constructor
      · intro h
        cases h
      · rintro ⟨b, hb, _⟩
        cases hb
  | ok b =>
      constructor
      · intro h
        exact ⟨b, rfl, h⟩
      · rintro ⟨b', hb, h⟩
        cases hb
        exact h

theorem except_ok_bind {beta gamma : Type} (b : beta)
    (f : beta -> Except epsilon gamma) : Except.ok b >>= f = f b :=
  rfl

/-- Where the success of a step does not depend on the state, a loop succeeds if
and only if every step does. -/
theorem foldlM_ok_iff {P : alpha -> Prop} {xs : List alpha}
    (h : forall x, x ∈ xs -> forall s,
      (exists s', step s x = Except.ok s') <-> P x) (s : sigma) :
    (exists s', xs.foldlM step s = Except.ok s') <->
      forall x, x ∈ xs -> P x := by
  induction xs generalizing s with
  | nil => exact iff_of_true ⟨s, rfl⟩ (fun x hx => absurd hx List.not_mem_nil)
  | cons x xs ih =>
      have hrest := ih (fun y hy => h y (List.mem_cons_of_mem _ hy))
      rw [List.forall_mem_cons, List.foldlM_cons]
      constructor
      · rintro ⟨s', hs'⟩
        rcases except_bind_ok.mp hs' with ⟨t, hstep, hloop⟩
        exact ⟨(h x List.mem_cons_self s).mp ⟨t, hstep⟩,
          (hrest t).mp ⟨s', hloop⟩⟩
      · rintro ⟨hx, hxs⟩
        rcases (h x List.mem_cons_self s).mpr hx with ⟨t, hstep⟩
        rcases (hrest t).mpr hxs with ⟨s', hloop⟩
        exact ⟨s', except_bind_ok.mpr ⟨t, hstep, hloop⟩⟩

/-- An invariant over the part of the list that is done. -/
theorem foldlM_invariant {xs : List alpha} (I : List alpha -> sigma -> Prop)
    (hstep : forall before x after s s', xs = before ++ x :: after ->
      I before s -> step s x = Except.ok s' -> I (before ++ [x]) s')
    {s s' : sigma} (hinit : I [] s) (h : xs.foldlM step s = Except.ok s') :
    I xs s' := by
  suffices hloop : forall rest before s, xs = before ++ rest -> I before s ->
      rest.foldlM step s = Except.ok s' -> I xs s' by
    exact hloop xs [] s rfl hinit h
  intro rest
  induction rest with
  | nil =>
      intro before s hxs hI hdone
      rw [List.append_nil] at hxs
      cases hdone
      rw [hxs]
      exact hI
  | cons x rest ih =>
      intro before s hxs hI hrun
      rw [List.foldlM_cons] at hrun
      rcases except_bind_ok.mp hrun with ⟨t, hx, hrest⟩
      apply ih (before ++ [x]) t
      · rw [hxs, List.append_assoc]
        rfl
      · exact hstep before x rest s t hxs hI hx
      · exact hrest

/-- A loop succeeds if every step does that starts where the steps before it
can end. -/
theorem foldlM_succeeds {xs : List alpha} {P : sigma -> Prop}
    (hstep : forall x s, x ∈ xs -> P s ->
      exists s', step s x = Except.ok s' ∧ P s') {s : sigma} (h : P s) :
    exists s', xs.foldlM step s = Except.ok s' ∧ P s' := by
  induction xs generalizing s with
  | nil => exact ⟨s, rfl, h⟩
  | cons x xs ih =>
      rcases hstep x s List.mem_cons_self h with ⟨t, hx, ht⟩
      rcases ih (fun y s hy => hstep y s (List.mem_cons_of_mem _ hy)) ht with
        ⟨s', hrest, hs'⟩
      refine ⟨s', ?_, hs'⟩
      rw [List.foldlM_cons]
      exact except_bind_ok.mpr ⟨t, hx, hrest⟩

/-!
## Two loops side by side
-/

/-- Two computations fail alike, or both succeed with related results. -/
def Agree {tau : Type} (R : sigma -> tau -> Prop) :
    Except epsilon sigma -> Except epsilon tau -> Prop
  | Except.ok s, Except.ok t => R s t
  | Except.error e, Except.error e' => e = e'
  | _, _ => False

section

variable {tau : Type} {R R' : sigma -> tau -> Prop}
variable {x : Except epsilon sigma} {y : Except epsilon tau}

theorem Agree.imp (h : Agree R x y) (hR : forall s t, R s t -> R' s t) :
    Agree R' x y := by
  cases x with
  | ok s =>
      cases y with
      | ok t => exact hR s t h
      | error e => exact h.elim
  | error e =>
      cases y with
      | ok t => exact h.elim
      | error e' => exact h

theorem Agree.bind {sigma' tau' : Type} {R' : sigma' -> tau' -> Prop}
    {f : sigma -> Except epsilon sigma'} {f' : tau -> Except epsilon tau'}
    (h : Agree R x y) (hf : forall s t, R s t -> Agree R' (f s) (f' t)) :
    Agree R' (x >>= f) (y >>= f') := by
  cases x with
  | ok s =>
      cases y with
      | ok t => exact hf s t h
      | error e => exact h.elim
  | error e =>
      cases y with
      | ok t => exact h.elim
      | error e' => exact h

theorem Agree.ok_left (h : Agree R x y) {s : sigma} (hx : x = Except.ok s) :
    exists t, y = Except.ok t ∧ R s t := by
  subst hx
  cases y with
  | ok t => exact ⟨t, rfl, h⟩
  | error e => exact h.elim

theorem Agree.ok_right (h : Agree R x y) {t : tau} (hy : y = Except.ok t) :
    exists s, x = Except.ok s ∧ R s t := by
  subst hy
  cases x with
  | ok s => exact ⟨s, rfl, h⟩
  | error e => exact h.elim

/-- Loops whose steps agree agree. -/
theorem foldlM_agree {f : sigma -> alpha -> Except epsilon sigma}
    {f' : tau -> alpha -> Except epsilon tau}
    (hstep : forall s t a, R s t -> Agree R (f s a) (f' t a))
    (xs : List alpha) {s : sigma} {t : tau} (h : R s t) :
    Agree R (xs.foldlM f s) (xs.foldlM f' t) := by
  induction xs generalizing s t with
  | nil => exact h
  | cons a xs ih =>
      rw [List.foldlM_cons, List.foldlM_cons]
      exact Agree.bind (hstep s t a h) (fun s' t' h' => ih h')

end

end Foundation
end LuaSandbox
