import Mathlib.Data.List.Basic

/-!
# Parsing expression grammars with deferred actions

Recognisers with ordered choice whose semantic actions are collected and run
only after the whole input is accepted.  Backtracking gives back the input and
the collected actions; the bounds of the captured text and the state of the
semantic predicates are kept.  Positions are suffixes of the input.
-/

namespace LuaSandbox
namespace Foundation

/--
Parsing expressions over semantic predicates on a state `sigma`, actions
`alpha` and recursive rules `rho`.
-/
inductive Peg (sigma alpha rho : Type) where
  | lit (word : List UInt8)
  | cls (member : UInt8 -> Bool)
  | seq (p q : Peg sigma alpha rho)
  | alt (p q : Peg sigma alpha rho)
  | star (p : Peg sigma alpha rho)
  | opt (p : Peg sigma alpha rho)
  | notAt (p : Peg sigma alpha rho)
  | capture (p : Peg sigma alpha rho)
  | check (f : List UInt8 -> sigma -> Bool × sigma)
  | act (f : List UInt8 -> alpha)
  | call (r : rho)

namespace Peg

variable {sigma alpha rho : Type}

/-!
## Semantics
-/

/-- What a failing expression does not restore. -/
structure Kept (sigma : Type) where
  textBegin : List UInt8
  textEnd : List UInt8
  user : sigma
  deriving DecidableEq

/-- The captured text. -/
def Kept.text (k : Kept sigma) : List UInt8 :=
  k.textBegin.take (k.textBegin.length - k.textEnd.length)

/-- The rest of the input and the actions of a success, or a failure. -/
abbrev Outcome (sigma alpha : Type) :=
  Option (List UInt8 × List alpha) × Kept sigma

abbrev Parser (sigma alpha : Type) :=
  List UInt8 -> Kept sigma -> Outcome sigma alpha

/-- Repeat a parser until it fails, at most `n` times. -/
def iterate (f : Parser sigma alpha) :
    Nat -> List UInt8 -> Kept sigma ->
      (List UInt8 × List alpha) × Kept sigma
  | 0, r, k => ((r, []), k)
  | n + 1, r, k =>
      match f r k with
      | (none, k1) => ((r, []), k1)
      | (some (r1, ts1), k1) =>
          (((iterate f n r1 k1).1.1, ts1 ++ (iterate f n r1 k1).1.2),
            (iterate f n r1 k1).2)

/--
The meaning of an expression.  A repetition whose body consumes input fails
within as many rounds as there are bytes left and one more.
-/
def denote (env : rho -> Parser sigma alpha) :
    Peg sigma alpha rho -> Parser sigma alpha
  | lit word, r, k =>
      if word.isPrefixOf r then (some (r.drop word.length, []), k)
      else (none, k)
  | cls member, r, k =>
      match r with
      | [] => (none, k)
      | b :: rest => if member b then (some (rest, []), k) else (none, k)
  | seq p q, r, k =>
      match denote env p r k with
      | (none, k1) => (none, k1)
      | (some (r1, ts1), k1) =>
          match denote env q r1 k1 with
          | (none, k2) => (none, k2)
          | (some (r2, ts2), k2) => (some (r2, ts1 ++ ts2), k2)
  | alt p q, r, k =>
      match denote env p r k with
      | (none, k1) => denote env q r k1
      | (some x, k1) => (some x, k1)
  | star p, r, k =>
      (some (iterate (denote env p) (r.length + 1) r k).1,
        (iterate (denote env p) (r.length + 1) r k).2)
  | opt p, r, k =>
      match denote env p r k with
      | (none, k1) => (some (r, []), k1)
      | (some x, k1) => (some x, k1)
  | notAt p, r, k =>
      match denote env p r k with
      | (none, k1) => (some (r, []), k1)
      | (some _, k1) => (none, k1)
  | capture p, r, k =>
      match denote env p r { k with textBegin := r } with
      | (none, k1) => (none, k1)
      | (some (r1, ts1), k1) =>
          (some (r1, ts1), { k1 with textBegin := r, textEnd := r1 })
  | check f, r, k =>
      (if (f k.text k.user).1 then some (r, []) else none,
        { k with user := (f k.text k.user).2 })
  | act f, r, k => (some (r, [f k.text]), k)
  | call rule, r, k => env rule r k

/-- The recursive rules of a grammar, nested at most `n` deep. -/
def parse (grammar : rho -> Peg sigma alpha rho) :
    Nat -> rho -> Parser sigma alpha
  | 0, _ => fun _ k => (none, k)
  | n + 1, r => denote (parse grammar n) (grammar r)

theorem parse_succ (grammar : rho -> Peg sigma alpha rho) (n : Nat)
    (rule : rho) :
    parse grammar (n + 1) rule = denote (parse grammar n) (grammar rule) :=
  rfl

example : (parse (fun _ => (seq (star (cls (· == 0x61))) (lit [0x62]) :
    Peg Unit Unit Unit)) 1 ()
    [0x61, 0x61, 0x62] ⟨[], [], ()⟩).1 = some ([], []) := by decide +kernel

/-!
## Inversion
-/

variable {env : rho -> Parser sigma alpha}
variable {p q : Peg sigma alpha rho}
variable {r r' : List UInt8} {k k' : Kept sigma} {ts : List alpha}

theorem lit_eq_some {word : List UInt8} :
    denote env (lit word) r k = (some (r', ts), k') <->
      r = word ++ r' ∧ ts = [] ∧ k' = k := by
  simp only [denote]
  split
  · rename_i h
    obtain ⟨tail, rfl⟩ := List.isPrefixOf_iff_prefix.mp h
    simp only [List.drop_left', Prod.mk.injEq, Option.some.injEq,
      List.append_cancel_left_eq]
    constructor
    · rintro ⟨⟨rfl, rfl⟩, rfl⟩
      exact ⟨rfl, rfl, rfl⟩
    · rintro ⟨rfl, rfl, rfl⟩
      exact ⟨⟨rfl, rfl⟩, rfl⟩
  · rename_i h
    constructor
    · intro hsome
      cases hsome
    · rintro ⟨rfl, _⟩
      exact absurd (List.isPrefixOf_iff_prefix.mpr (List.prefix_append _ _)) h

theorem cls_eq_some {member : UInt8 -> Bool} :
    denote env (cls member) r k = (some (r', ts), k') <->
      (exists b, r = b :: r' ∧ member b = true) ∧ ts = [] ∧ k' = k := by
  cases r with
  | nil => simp [denote]
  | cons b rest =>
      by_cases h : member b = true
      · simp only [denote, if_pos h, Prod.mk.injEq, Option.some.injEq,
          List.cons.injEq]
        constructor
        · rintro ⟨⟨rfl, rfl⟩, rfl⟩
          exact ⟨⟨b, ⟨rfl, rfl⟩, h⟩, rfl, rfl⟩
        · rintro ⟨⟨c, ⟨rfl, rfl⟩, _⟩, rfl, rfl⟩
          exact ⟨⟨rfl, rfl⟩, rfl⟩
      · simp only [denote, if_neg h]
        constructor
        · intro hsome
          cases hsome
        · rintro ⟨⟨c, hc, hmem⟩, _⟩
          cases hc
          exact absurd hmem h

theorem seq_eq_some :
    denote env (seq p q) r k = (some (r', ts), k') <->
      exists r1 ts1 k1 ts2, denote env p r k = (some (r1, ts1), k1) ∧
        denote env q r1 k1 = (some (r', ts2), k') ∧ ts = ts1 ++ ts2 := by
  constructor
  · intro h
    simp only [denote] at h
    split at h
    · cases h
    · rename_i r1 ts1 k1 hp
      split at h
      · cases h
      · rename_i r2 ts2 k2 hq
        cases h
        exact ⟨r1, ts1, k1, ts2, hp, hq, rfl⟩
  · rintro ⟨r1, ts1, k1, ts2, hp, hq, rfl⟩
    simp only [denote, hp, hq]

theorem alt_eq_some :
    denote env (alt p q) r k = (some (r', ts), k') <->
      denote env p r k = (some (r', ts), k') ∨
        exists k1, denote env p r k = (none, k1) ∧
          denote env q r k1 = (some (r', ts), k') := by
  constructor
  · intro h
    simp only [denote] at h
    split at h
    · rename_i k1 hp
      exact Or.inr ⟨k1, hp, h⟩
    · rename_i x k1 hp
      cases h
      exact Or.inl hp
  · rintro (hp | ⟨k1, hp, hq⟩)
    · simp only [denote, hp]
    · simp only [denote, hp, hq]

example : (denote (fun _ _ k => (none, k))
    (alt (lit [0x61]) (act id) : Peg Unit (List UInt8) Unit) [0x62]
    ⟨[], [], ()⟩).1 = some ([0x62], [[]]) := by decide +kernel

theorem opt_eq_some :
    denote env (opt p) r k = (some (r', ts), k') <->
      denote env p r k = (some (r', ts), k') ∨
        denote env p r k = (none, k') ∧ r' = r ∧ ts = [] := by
  constructor
  · intro h
    simp only [denote] at h
    split at h
    · rename_i k1 hp
      cases h
      exact Or.inr ⟨hp, rfl, rfl⟩
    · rename_i x k1 hp
      cases h
      exact Or.inl hp
  · rintro (hp | ⟨hp, rfl, rfl⟩)
    · simp only [denote, hp]
    · simp only [denote, hp]

theorem capture_eq_some :
    denote env (capture p) r k = (some (r', ts), k') <->
      exists k1, denote env p r { k with textBegin := r } =
          (some (r', ts), k1) ∧
        k' = { k1 with textBegin := r, textEnd := r' } := by
  constructor
  · intro h
    simp only [denote] at h
    split at h
    · cases h
    · rename_i r1 ts1 k1 hp
      cases h
      exact ⟨k1, hp, rfl⟩
  · rintro ⟨k1, hp, rfl⟩
    simp only [denote, hp]

theorem notAt_eq_some :
    denote env (notAt p) r k = (some (r', ts), k') <->
      denote env p r k = (none, k') ∧ r' = r ∧ ts = [] := by
  constructor
  · intro h
    simp only [denote] at h
    split at h
    · rename_i k1 hp
      cases h
      exact ⟨hp, rfl, rfl⟩
    · cases h
  · rintro ⟨hp, rfl, rfl⟩
    simp only [denote, hp]

theorem check_eq_some {f : List UInt8 -> sigma -> Bool × sigma} :
    denote env (check f) r k = (some (r', ts), k') <->
      (f k.text k.user).1 = true ∧ r' = r ∧ ts = [] ∧
        k' = { k with user := (f k.text k.user).2 } := by
  simp only [denote]
  split
  · rename_i h
    constructor
    · intro hsome
      cases hsome
      exact ⟨h, rfl, rfl, rfl⟩
    · rintro ⟨_, rfl, rfl, rfl⟩
      rfl
  · rename_i h
    constructor
    · intro hsome
      cases hsome
    · rintro ⟨htrue, _⟩
      exact absurd htrue h

theorem act_eq_some {f : List UInt8 -> alpha} :
    denote env (act f) r k = (some (r', ts), k') <->
      r' = r ∧ ts = [f k.text] ∧ k' = k := by
  simp only [denote, Prod.mk.injEq, Option.some.injEq]
  constructor
  · rintro ⟨⟨rfl, rfl⟩, rfl⟩
    exact ⟨rfl, rfl, rfl⟩
  · rintro ⟨rfl, rfl, rfl⟩
    exact ⟨⟨rfl, rfl⟩, rfl⟩

theorem star_eq_some :
    denote env (star p) r k = (some (r', ts), k') <->
      iterate (denote env p) (r.length + 1) r k = ((r', ts), k') := by
  simp only [denote, Prod.mk.injEq, Option.some.injEq]
  exact ⟨fun h => Prod.ext h.1 h.2, fun h => by rw [h]; exact ⟨rfl, rfl⟩⟩

/-!
## Repetition
-/

/-- What holds of no rounds and is carried over a round holds of a loop. -/
example : (denote (fun _ _ k => (none, k))
    (star (cls (· == 0x61)) : Peg Unit Unit Unit) [0x61, 0x61, 0x62]
    ⟨[], [], ()⟩).1 = some ([0x62], []) := by decide +kernel

theorem iterate_induction {f : Parser sigma alpha}
    {P : List UInt8 -> Kept sigma -> List UInt8 -> List alpha ->
      Kept sigma -> Prop}
    (hstop : forall r k k1, f r k = (none, k1) -> P r k r [] k1)
    (hround : forall r k r1 ts1 k1 r2 ts2 k2,
      f r k = (some (r1, ts1), k1) -> P r1 k1 r2 ts2 k2 ->
        P r k r2 (ts1 ++ ts2) k2)
    (hlast : forall r k, P r k r [] k) (n : Nat) :
    forall r k, P r k (iterate f n r k).1.1 (iterate f n r k).1.2
      (iterate f n r k).2 := by
  induction n with
  | zero =>
      intro r k
      exact hlast r k
  | succ n ih =>
      intro r k
      rcases hf : f r k with ⟨_ | ⟨r1, ts1⟩, k1⟩
      · simpa only [iterate, hf] using hstop r k k1 hf
      · simpa only [iterate, hf] using
          hround r k r1 ts1 k1 _ _ _ hf (ih r1 k1)

/-- Repeating a class takes the longest stretch of its members. -/
theorem iterate_cls (env : rho -> Parser sigma alpha)
    (member : UInt8 -> Bool) (n : Nat) :
    forall (r : List UInt8) (k : Kept sigma), r.length < n ->
      iterate (denote env (cls member)) n r k =
        ((r.dropWhile member, []), k) := by
  induction n with
  | zero =>
      intro r k h
      cases h
  | succ n ih =>
      intro r k h
      cases r with
      | nil => rfl
      | cons b rest =>
          simp only [List.length_cons, Nat.add_lt_add_iff_right] at h
          by_cases hb : member b = true
          · have hround : denote env (cls member) (b :: rest) k =
                (some (rest, []), k) := by
              simp only [denote, if_pos hb]
            rw [List.dropWhile_cons_of_pos hb]
            simp only [iterate, hround, ih rest k h, List.nil_append]
          · have hround : denote env (cls member) (b :: rest) k =
                (none, k) := by
              simp only [denote, if_neg hb]
            rw [List.dropWhile_cons_of_neg hb]
            simp only [iterate, hround]

theorem denote_star_cls (env : rho -> Parser sigma alpha)
    (member : UInt8 -> Bool) (r : List UInt8) (k : Kept sigma) :
    denote env (star (cls member)) r k =
      (some (r.dropWhile member, []), k) :=
  star_eq_some.mpr (iterate_cls env member _ r k (Nat.lt_succ_self _))

/-!
## What a success consumes
-/

/-- The recursive rules leave a suffix of their input. -/
def Shrinks (env : rho -> Parser sigma alpha) : Prop :=
  forall rule r k x k', env rule r k = (some x, k') -> x.1 <:+ r

theorem denote_suffix (henv : Shrinks env) (p : Peg sigma alpha rho) :
    forall {r k r' ts k'}, denote env p r k = (some (r', ts), k') ->
      r' <:+ r := by
  induction p with
  | lit word =>
      intro r k r' ts k' h
      rcases lit_eq_some.mp h with ⟨rfl, _⟩
      exact List.suffix_append word r'
  | cls member =>
      intro r k r' ts k' h
      rcases cls_eq_some.mp h with ⟨⟨b, rfl, _⟩, _⟩
      exact List.suffix_cons b r'
  | seq p q ihp ihq =>
      intro r k r' ts k' h
      rcases seq_eq_some.mp h with ⟨r1, ts1, k1, ts2, hp, hq, _⟩
      exact (ihq hq).trans (ihp hp)
  | alt p q ihp ihq =>
      intro r k r' ts k' h
      rcases alt_eq_some.mp h with hp | ⟨k1, _, hq⟩
      · exact ihp hp
      · exact ihq hq
  | star p ih =>
      intro r k r' ts k' h
      have hloop := iterate_induction (f := denote env p)
        (P := fun r _ r' _ _ => r' <:+ r)
        (fun r _ _ _ => List.suffix_refl r)
        (fun _ _ _ _ _ _ _ _ hf hrest => hrest.trans (ih hf))
        (fun r _ => List.suffix_refl r) (r.length + 1) r k
      rw [star_eq_some.mp h] at hloop
      exact hloop
  | opt p ih =>
      intro r k r' ts k' h
      rcases opt_eq_some.mp h with hp | ⟨_, rfl, _⟩
      · exact ih hp
      · exact List.suffix_refl _
  | notAt p ih =>
      intro r k r' ts k' h
      exact (notAt_eq_some.mp h).2.1 ▸ List.suffix_refl r
  | capture p ih =>
      intro r k r' ts k' h
      rcases capture_eq_some.mp h with ⟨k1, hp, _⟩
      exact ih hp
  | check f =>
      intro r k r' ts k' h
      exact (check_eq_some.mp h).2.1 ▸ List.suffix_refl r
  | act f =>
      intro r k r' ts k' h
      exact (act_eq_some.mp h).1 ▸ List.suffix_refl r
  | call rule =>
      intro r k r' ts k' h
      exact henv rule r k (r', ts) k' h

theorem parse_shrinks (grammar : rho -> Peg sigma alpha rho) :
    forall n, Shrinks (parse grammar n)
  | 0 => fun _ _ _ _ _ h => by cases h
  | n + 1 => fun rule _ _ _ _ h =>
      denote_suffix (parse_shrinks grammar n) (grammar rule) h

end Peg

end Foundation
end LuaSandbox
