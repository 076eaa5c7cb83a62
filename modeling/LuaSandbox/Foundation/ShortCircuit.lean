import Mathlib.Data.List.Basic
import Mathlib.Logic.Relation

/-!
# Boolean trees, postfix form and short-circuit code

Trees over two binary connectives, the postfix sequences that stand for them,
and a flat code for them in which a connective sits between its operands and
carries the address to continue at once its left operand decides it.  The leaf
tests occupy any positive number of address units.
-/

namespace LuaSandbox
namespace Foundation

/-!
## Trees
-/

/-- The two connectives. -/
inductive Connective where
  | and
  | or
  deriving DecidableEq, Repr

namespace Connective

/-- The truth function of a connective. -/
def apply : Connective -> Bool -> Bool -> Bool
  | and, a, b => a && b
  | or, a, b => a || b

/-- The left operand's value alone determines the result. -/
def decided : Connective -> Bool -> Bool
  | and, a => !a
  | or, a => a

theorem apply_of_decided {op : Connective} {a : Bool}
    (h : op.decided a = true) (b : Bool) : op.apply a b = a := by
  cases op <;> cases a <;> cases b <;> first | rfl | cases h

theorem apply_of_not_decided {op : Connective} {a : Bool}
    (h : op.decided a = false) (b : Bool) : op.apply a b = b := by
  cases op <;> cases a <;> cases b <;> first | rfl | cases h

end Connective

/-- Binary trees with tests at the leaves. -/
inductive BoolTree (alpha : Type u) where
  | leaf (a : alpha)
  | node (op : Connective) (left right : BoolTree alpha)
  deriving DecidableEq, Repr

namespace BoolTree

variable {alpha : Type u} {beta : Type v}

/-- The truth value of a tree under a valuation of its leaves. -/
def eval (v : alpha -> Bool) : BoolTree alpha -> Bool
  | leaf a => v a
  | node op l r => op.apply (l.eval v) (r.eval v)

/-- The leaves from left to right. -/
def leaves : BoolTree alpha -> List alpha
  | leaf a => [a]
  | node _ l r => l.leaves ++ r.leaves

/-- The number of leaves and connectives. -/
def size : BoolTree alpha -> Nat
  | leaf _ => 1
  | node _ l r => l.size + r.size + 1

theorem size_pos (t : BoolTree alpha) : 0 < t.size := by
  cases t <;> simp [size]

theorem size_eq_two_mul_leaves (t : BoolTree alpha) :
    t.size + 1 = 2 * t.leaves.length := by
  induction t with
  | leaf a => rfl
  | node op l r ihl ihr =>
      simp only [size, leaves, List.length_append]
      omega

/-- Relabel the leaves. -/
def map (f : alpha -> beta) : BoolTree alpha -> BoolTree beta
  | leaf a => leaf (f a)
  | node op l r => node op (l.map f) (r.map f)

@[simp] theorem size_map (f : alpha -> beta) (t : BoolTree alpha) :
    (t.map f).size = t.size := by
  induction t with
  | leaf a => rfl
  | node op l r ihl ihr => simp [map, size, ihl, ihr]

@[simp] theorem leaves_map (f : alpha -> beta) (t : BoolTree alpha) :
    (t.map f).leaves = t.leaves.map f := by
  induction t with
  | leaf a => rfl
  | node op l r ihl ihr => simp [map, leaves, ihl, ihr]

theorem eval_map (f : alpha -> beta) (v : beta -> Bool)
    (t : BoolTree alpha) :
    (t.map f).eval v = t.eval (fun a => v (f a)) := by
  induction t with
  | leaf a => rfl
  | node op l r ihl ihr => simp [map, eval, ihl, ihr]

/-!
## Postfix sequences

A postfix sequence is read with a stack of trees: a leaf is pushed, a
connective replaces the two topmost trees.
-/

/-- An element of a postfix sequence. -/
inductive Token (alpha : Type u) where
  | leaf (a : alpha)
  | op (op : Connective)
  deriving DecidableEq, Repr

/-- The postfix sequence of a tree. -/
def postfixOf : BoolTree alpha -> List (Token alpha)
  | leaf a => [Token.leaf a]
  | node op l r => l.postfixOf ++ r.postfixOf ++ [Token.op op]

/-- Read a postfix sequence onto a stack of trees. -/
def readPostfix :
    List (BoolTree alpha) -> List (Token alpha) -> Option (List (BoolTree alpha))
  | stack, [] => some stack
  | stack, Token.leaf a :: rest => readPostfix (leaf a :: stack) rest
  | r :: l :: stack, Token.op op :: rest =>
      readPostfix (node op l r :: stack) rest
  | _, Token.op _ :: _ => none

/-- The tree of a well-formed postfix sequence. -/
def ofPostfix (tokens : List (Token alpha)) : Option (BoolTree alpha) :=
  match readPostfix [] tokens with
  | some [t] => some t
  | _ => none

theorem readPostfix_append (xs ys : List (Token alpha)) :
    forall stack, readPostfix stack (xs ++ ys) =
      (readPostfix stack xs).bind (fun s => readPostfix s ys) := by
  induction xs with
  | nil =>
      intro stack
      rfl
  | cons x rest ih =>
      intro stack
      cases x with
      | leaf a => exact ih (leaf a :: stack)
      | op c =>
          match stack with
          | [] => rfl
          | [_] => rfl
          | r :: l :: tail => exact ih (node c l r :: tail)

theorem readPostfix_postfixOf (t : BoolTree alpha) :
    forall stack, readPostfix stack t.postfixOf = some (t :: stack) := by
  induction t with
  | leaf a =>
      intro stack
      rfl
  | node op l r ihl ihr =>
      intro stack
      simp only [postfixOf, readPostfix_append, ihl, ihr, Option.bind_some]
      rfl

theorem ofPostfix_postfixOf (t : BoolTree alpha) :
    ofPostfix t.postfixOf = some t := by
  simp [ofPostfix, readPostfix_postfixOf]

theorem flatMap_postfixOf_of_readPostfix (tokens : List (Token alpha)) :
    forall {stack trees : List (BoolTree alpha)},
      readPostfix stack tokens = some trees ->
      stack.reverse.flatMap postfixOf ++ tokens =
        trees.reverse.flatMap postfixOf := by
  induction tokens with
  | nil =>
      intro stack trees h
      cases h
      simp
  | cons x rest ih =>
      intro stack trees h
      cases x with
      | leaf a =>
          have hrest : (leaf a :: stack).reverse.flatMap postfixOf ++ rest =
              trees.reverse.flatMap postfixOf := ih h
          simpa [postfixOf] using hrest
      | op c =>
          match stack, h with
          | r :: l :: tail, h =>
              have hrest :
                  (node c l r :: tail).reverse.flatMap postfixOf ++ rest =
                    trees.reverse.flatMap postfixOf := ih h
              simpa [postfixOf, List.append_assoc] using hrest

/-- A sequence is well formed exactly when it is the postfix form of a tree. -/
theorem ofPostfix_eq_some_iff {tokens : List (Token alpha)}
    {t : BoolTree alpha} :
    ofPostfix tokens = some t <-> tokens = t.postfixOf := by
  constructor
  · intro h
    unfold ofPostfix at h
    split at h
    · rename_i u hread
      cases h
      simpa using flatMap_postfixOf_of_readPostfix tokens hread
    · cases h
  · intro h
    rw [h]
    exact ofPostfix_postfixOf t

/-!
## Layout

A leaf `a` takes `w a` units and a connective one unit, between its operands.
-/

section Layout

variable (w : alpha -> Nat)

/-- The number of units a tree takes. -/
def units : BoolTree alpha -> Nat
  | leaf a => w a
  | node _ l r => l.units + 1 + r.units

theorem size_le_units (hw : forall a, 0 < w a) (t : BoolTree alpha) :
    t.size <= t.units w := by
  induction t with
  | leaf a => exact hw a
  | node op l r ihl ihr =>
      simp only [size, units]
      omega

theorem units_map (f : beta -> alpha) (t : BoolTree beta) :
    (t.map f).units w = t.units (fun b => w (f b)) := by
  induction t with
  | leaf b => rfl
  | node op l r ihl ihr => simp [map, units, ihl, ihr]

/-- Tag every leaf with the address it is laid out at. -/
def locate : BoolTree alpha -> Nat -> BoolTree (Nat × alpha)
  | leaf a, base => leaf (base, a)
  | node op l r, base =>
      node op (l.locate base) (r.locate (base + l.units w + 1))

theorem leaves_locate (t : BoolTree alpha) (base : Nat) :
    (t.locate w base).leaves.map Prod.snd = t.leaves := by
  induction t generalizing base with
  | leaf a => rfl
  | node op l r ihl ihr => simp [locate, leaves, ihl, ihr]

theorem eval_locate (v : alpha -> Bool) (t : BoolTree alpha) (base : Nat) :
    (t.locate w base).eval (fun x => v x.2) = t.eval v := by
  induction t generalizing base with
  | leaf a => rfl
  | node op l r ihl ihr => simp [locate, eval, ihl, ihr]

theorem locate_bounds (hw : forall a, 0 < w a) (t : BoolTree alpha) :
    forall base, forall x, x ∈ (t.locate w base).leaves ->
      base <= x.1 ∧ x.1 < base + t.units w := by
  induction t with
  | leaf a =>
      intro base x hx
      have hx' : x = (base, a) := by simpa [locate, leaves] using hx
      have := hw a
      subst hx'
      simp only [units]
      omega
  | node op l r ihl ihr =>
      intro base x hx
      simp only [locate, leaves, List.mem_append] at hx
      simp only [units]
      rcases hx with hx | hx
      · have := ihl base x hx
        omega
      · have := ihr _ x hx
        omega

/-- Different leaves have different addresses. -/
theorem locate_pairwise (hw : forall a, 0 < w a) (t : BoolTree alpha) :
    forall base,
      ((t.locate w base).leaves.map Prod.fst).Pairwise (· < ·) := by
  induction t with
  | leaf a =>
      intro base
      simp [locate, leaves]
  | node op l r ihl ihr =>
      intro base
      simp only [locate, leaves, List.map_append, List.pairwise_append]
      refine ⟨ihl base, ihr _, ?_⟩
      intro p hp q hq
      rcases List.mem_map.mp hp with ⟨x, hx, rfl⟩
      rcases List.mem_map.mp hq with ⟨y, hy, rfl⟩
      have hxb := locate_bounds w hw l base x hx
      have hyb := locate_bounds w hw r _ y hy
      omega

end Layout

end BoolTree

/-!
## Short-circuit code
-/

/-- What stands at an address of the code. -/
inductive Instr (alpha : Type u) where
  | test (a : alpha) (units : Nat)
  | branch (op : Connective) (target : Nat)
  deriving DecidableEq, Repr

namespace ShortCircuit

variable {alpha : Type u}

section Machine

variable (v : Nat -> alpha -> Bool) (code : Nat -> Option (Instr alpha))

/-- One step from an address with the running truth value. -/
def step : Nat × Bool -> Option (Nat × Bool)
  | (p, b) =>
      match code p with
      | none => none
      | some (Instr.test a units) => some (p + units, v p a)
      | some (Instr.branch op target) =>
          if op.decided b then some (target, b) else some (p + 1, b)

/-- Run until the address is at or past `stop`. -/
def run (stop : Nat) : Nat -> Nat × Bool -> Option Bool
  | 0, _ => none
  | fuel + 1, s =>
      if stop <= s.1 then
        some s.2
      else
        match step v code s with
        | none => none
        | some s' => run stop fuel s'

/-- The states a run passes through. -/
def Reaches (stop : Nat) : Nat × Bool -> Nat × Bool -> Prop :=
  Relation.ReflTransGen (fun s s' => s.1 < stop ∧ step v code s = some s')

end Machine

/-- The code holds the layout of a tree from an address on. -/
def Holds (code : Nat -> Option (Instr alpha)) (w : alpha -> Nat) :
    BoolTree alpha -> Nat -> Prop
  | BoolTree.leaf a, base => code base = some (Instr.test a (w a))
  | BoolTree.node op l r, base =>
      Holds code w l base ∧
      code (base + l.units w) =
        some (Instr.branch op (base + (BoolTree.node op l r).units w)) ∧
      Holds code w r (base + l.units w + 1)

variable {v : Nat -> alpha -> Bool} {code : Nat -> Option (Instr alpha)}
variable {w : alpha -> Nat}

theorem holds_congr {code' : Nat -> Option (Instr alpha)}
    (hw : forall a, 0 < w a) (t : BoolTree alpha) :
    forall {base : Nat},
      (forall p, base <= p -> p < base + t.units w -> code' p = code p) ->
      Holds code w t base -> Holds code' w t base := by
  induction t with
  | leaf a =>
      intro base h hholds
      have := hw a
      have hbase : code' base = code base :=
        h base (Nat.le_refl base) (by simp only [BoolTree.units]; omega)
      exact hbase.trans hholds
  | node op l r ihl ihr =>
      intro base h hholds
      simp only [BoolTree.units] at h
      rcases hholds with ⟨hl, hop, hr⟩
      refine ⟨ihl (fun p hlow hhigh => h p hlow (by omega)) hl, ?_,
        ihr (fun p hlow hhigh => h p (by omega) (by omega)) hr⟩
      rw [h _ (by omega) (by omega)]
      exact hop

theorem run_step {stop fuel : Nat} {s s' : Nat × Bool}
    (hlt : s.1 < stop) (hstep : step v code s = some s') :
    run v code stop (fuel + 1) s = run v code stop fuel s' := by
  simp [run, Nat.not_le.mpr hlt, hstep]

/--
Running the code of a tree from its first unit arrives just behind its last
one with the value of the tree.
-/
theorem run_holds (hw : forall a, 0 < w a) {stop : Nat}
    (t : BoolTree alpha) :
    forall {base : Nat} (b : Bool), Holds code w t base ->
      base + t.units w <= stop ->
      exists n, n <= t.size ∧ forall fuel,
        run v code stop (n + fuel) (base, b) =
          run v code stop fuel
            (base + t.units w, (t.locate w base).eval (fun x => v x.1 x.2)) := by
  induction t with
  | leaf a =>
      intro base b hholds hstop
      have hpos := hw a
      have hlt : base < stop := by
        simp only [BoolTree.units] at hstop
        omega
      have hcode : code base = some (Instr.test a (w a)) := hholds
      have hstep :
          step v code (base, b) = some (base + w a, v base a) := by
        simp [step, hcode]
      refine ⟨1, Nat.le_refl 1, ?_⟩
      intro fuel
      rw [Nat.add_comm 1 fuel, run_step hlt hstep]
      rfl
  | node op l r ihl ihr =>
      intro base b hholds hstop
      rcases hholds with ⟨hleft, hbranch, hright⟩
      simp only [BoolTree.units] at hstop
      have hltop : base + l.units w < stop := by omega
      rcases ihl b hleft (by omega) with ⟨nl, hnl, hrunl⟩
      cases hdec : op.decided
          ((l.locate w base).eval (fun x => v x.1 x.2)) with
      | true =>
          -- The left operand decides: the branch skips the right operand.
          have hstep :
              step v code
                  (base + l.units w,
                    (l.locate w base).eval (fun x => v x.1 x.2)) =
                some (base + (BoolTree.node op l r).units w,
                  (l.locate w base).eval (fun x => v x.1 x.2)) := by
            simp [step, hbranch, hdec]
          refine ⟨nl + 1, by simp only [BoolTree.size]; omega, ?_⟩
          intro fuel
          rw [Nat.add_assoc, hrunl, Nat.add_comm 1 fuel,
            run_step hltop hstep]
          simp only [BoolTree.locate, BoolTree.eval,
            Connective.apply_of_decided hdec]
      | false =>
          have hstep :
              step v code
                  (base + l.units w,
                    (l.locate w base).eval (fun x => v x.1 x.2)) =
                some (base + l.units w + 1,
                  (l.locate w base).eval (fun x => v x.1 x.2)) := by
            simp [step, hbranch, hdec]
          rcases ihr ((l.locate w base).eval (fun x => v x.1 x.2)) hright
            (by omega) with ⟨nr, hnr, hrunr⟩
          refine ⟨nl + (1 + nr), by simp only [BoolTree.size]; omega, ?_⟩
          intro fuel
          rw [Nat.add_assoc, hrunl, Nat.add_assoc, Nat.add_comm 1,
            run_step hltop hstep, hrunr]
          simp only [BoolTree.locate, BoolTree.eval,
            Connective.apply_of_not_decided hdec, BoolTree.units,
            Nat.add_assoc]

/-- The whole code evaluates its tree, with any fuel beyond its size. -/
theorem run_eq_eval (hw : forall a, 0 < w a) {t : BoolTree alpha}
    (hholds : Holds code w t 0) {fuel : Nat} (hfuel : t.size < fuel)
    (b : Bool) :
    run v code (t.units w) fuel (0, b) =
      some ((t.locate w 0).eval (fun x => v x.1 x.2)) := by
  rcases run_holds (v := v) hw t b hholds (Nat.le_of_eq (Nat.zero_add _))
    with ⟨n, hn, hrun⟩
  obtain ⟨k, rfl⟩ : exists k, fuel = n + (k + 1) :=
    ⟨fuel - n - 1, by omega⟩
  rw [hrun]
  simp [run]

/-!
## Addresses visited
-/

/-- The addresses at which the layout of a tree has an instruction. -/
def Starts (w : alpha -> Nat) : BoolTree alpha -> Nat -> Nat -> Prop
  | BoolTree.leaf _, base, p => p = base
  | BoolTree.node _ l r, base, p =>
      Starts w l base p ∨ p = base + l.units w ∨
        Starts w r (base + l.units w + 1) p

theorem starts_base (t : BoolTree alpha) (base : Nat) :
    Starts w t base base := by
  induction t generalizing base with
  | leaf a => rfl
  | node op l r ihl ihr => exact Or.inl (ihl base)

theorem code_of_starts {t : BoolTree alpha} {base p : Nat}
    (hholds : Holds code w t base) (hp : Starts w t base p) :
    (code p).isSome = true := by
  induction t generalizing base with
  | leaf a =>
      have hstart : p = base := hp
      have hcode : code base = some (Instr.test a (w a)) := hholds
      simp [hstart, hcode]
  | node op l r ihl ihr =>
      rcases hholds with ⟨hleft, hbranch, hright⟩
      rcases hp with hp | hp | hp
      · exact ihl hleft hp
      · simp [hp, hbranch]
      · exact ihr hright hp

/-- A step from a start address leads to a start address or to the end. -/
theorem step_starts {t : BoolTree alpha} {base : Nat} {s s' : Nat × Bool}
    (hholds : Holds code w t base) (hs : Starts w t base s.1)
    (hstep : step v code s = some s') :
    Starts w t base s'.1 ∨ s'.1 = base + t.units w := by
  induction t generalizing base with
  | leaf a =>
      have hp : s.1 = base := hs
      have hcode : code base = some (Instr.test a (w a)) := hholds
      simp only [step, hp, hcode, Option.some.injEq] at hstep
      rw [← hstep]
      exact Or.inr rfl
  | node op l r ihl ihr =>
      rcases hholds with ⟨hleft, hbranch, hright⟩
      simp only [Starts, BoolTree.units]
      rcases hs with hs | hs | hs
      · rcases ihl hleft hs with h | h
        · exact Or.inl (Or.inl h)
        · exact Or.inl (Or.inr (Or.inl h))
      · simp only [step, hs, hbranch] at hstep
        split at hstep
        · cases hstep
          exact Or.inr rfl
        · cases hstep
          exact Or.inl (Or.inr (Or.inr (starts_base r _)))
      · rcases ihr hright hs with h | h
        · exact Or.inl (Or.inr (Or.inr h))
        · exact Or.inr (by omega)

/-- Every address a run visits is a start address or the end of the code. -/
theorem reaches_starts {t : BoolTree alpha} {b : Bool} {s : Nat × Bool}
    (hholds : Holds code w t 0)
    (hreach : Reaches v code (t.units w) (0, b) s) :
    Starts w t 0 s.1 ∨ s.1 = t.units w := by
  induction hreach with
  | refl => exact Or.inl (starts_base t 0)
  | tail _ hlast ih =>
      rcases hlast with ⟨hlt, hstep⟩
      rcases ih with hs | hs
      · simpa using step_starts hholds hs hstep
      · omega

end ShortCircuit

end Foundation
end LuaSandbox
