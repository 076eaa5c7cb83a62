import LuaSandbox.Foundation.ShortCircuit

/-!
# Boolean expressions and the operator stack

Expressions as the matcher grammar nests them, their value under the documented
precedence, and the tree that the parser's operator stack makes of them.  An
opening parenthesis stays on that stack until the end of the input, so whatever
was pending before it takes everything behind it as its right operand.
-/

namespace LuaSandbox
namespace Matcher

open Foundation
open BoolTree

/-!
## Expressions
-/

/-- The levels of the grammar, from the loosest to the tightest. -/
inductive Level where
  | ored | anded | expr

/-- Expressions over tests; operators of one level associate to the left. -/
inductive Expression (alpha : Type) : Level -> Type where
  | test (a : alpha) : Expression alpha Level.expr
  | group (e : Expression alpha Level.ored) : Expression alpha Level.expr
  | expr (e : Expression alpha Level.expr) : Expression alpha Level.anded
  | and (l : Expression alpha Level.anded) (r : Expression alpha Level.expr) :
      Expression alpha Level.anded
  | anded (e : Expression alpha Level.anded) : Expression alpha Level.ored
  | or (l : Expression alpha Level.ored) (r : Expression alpha Level.anded) :
      Expression alpha Level.ored

namespace Expression

variable {alpha : Type}

/-- The recursive value of an expression. -/
def eval (v : alpha -> Bool) :
    {level : Level} -> Expression alpha level -> Bool
  | _, test a => v a
  | _, group e => e.eval v
  | _, expr e => e.eval v
  | _, and l r => l.eval v && r.eval v
  | _, anded e => e.eval v
  | _, or l r => l.eval v || r.eval v

/-- The tests from left to right. -/
def tests : {level : Level} -> Expression alpha level -> List alpha
  | _, test a => [a]
  | _, group e => e.tests
  | _, expr e => e.tests
  | _, and l r => l.tests ++ r.tests
  | _, anded e => e.tests
  | _, or l r => l.tests ++ r.tests

def map {beta : Type} (f : alpha -> beta) :
    {level : Level} -> Expression alpha level -> Expression beta level
  | _, test a => test (f a)
  | _, group e => group (e.map f)
  | _, expr e => expr (e.map f)
  | _, and l r => and (l.map f) (r.map f)
  | _, anded e => anded (e.map f)
  | _, or l r => or (l.map f) (r.map f)

/--
The value that decides the position of the leftmost parenthesised group whose
value does not matter, if there is such a group; `pend` is the value of the
outermost operand that has decided already.
-/
def skipped (v : alpha -> Bool) :
    {level : Level} -> Expression alpha level -> Option Bool -> Option Bool
  | _, test _, _ => none
  | _, group _, some d => some d
  | _, group e, none => e.skipped v none
  | _, expr e, pend => e.skipped v pend
  | _, and l r, pend =>
      (l.skipped v pend).or
        (r.skipped v (pend.or (if l.eval v then none else some false)))
  | _, anded e, pend => e.skipped v pend
  | _, or l r, pend =>
      (l.skipped v pend).or
        (r.skipped v (pend.or (if l.eval v then some true else none)))

theorem map_map {beta gamma : Type} (f : alpha -> beta) (g : beta -> gamma)
    {level : Level} (e : Expression alpha level) :
    (e.map f).map g = e.map (fun a => g (f a)) := by
  induction e with
  | test a => rfl
  | group e ih => simp only [map, ih]
  | expr e ih => simp only [map, ih]
  | and l r ihl ihr => simp only [map, ihl, ihr]
  | anded e ih => simp only [map, ih]
  | or l r ihl ihr => simp only [map, ihl, ihr]

theorem tests_map {beta : Type} (f : alpha -> beta) {level : Level}
    (e : Expression alpha level) : (e.map f).tests = e.tests.map f := by
  induction e with
  | test a => rfl
  | group e ih => exact ih
  | expr e ih => exact ih
  | and l r ihl ihr => simp only [map, tests, List.map_append, ihl, ihr]
  | anded e ih => exact ih
  | or l r ihl ihr => simp only [map, tests, List.map_append, ihl, ihr]

theorem eval_map {beta : Type} (f : alpha -> beta) (v : beta -> Bool)
    {level : Level} (e : Expression alpha level) :
    (e.map f).eval v = e.eval (fun a => v (f a)) := by
  induction e with
  | test a => rfl
  | group e ih => exact ih
  | expr e ih => exact ih
  | and l r ihl ihr => simp only [map, eval, ihl, ihr]
  | anded e ih => exact ih
  | or l r ihl ihr => simp only [map, eval, ihl, ihr]

theorem skipped_map {beta : Type} (f : alpha -> beta) (v : beta -> Bool)
    {level : Level} (e : Expression alpha level) :
    forall pend, (e.map f).skipped v pend =
      e.skipped (fun a => v (f a)) pend := by
  induction e with
  | test a =>
      intro pend
      rfl
  | group e ih =>
      intro pend
      cases pend with
      | none => exact ih none
      | some d => rfl
  | expr e ih =>
      intro pend
      exact ih pend
  | and l r ihl ihr =>
      intro pend
      simp only [map, skipped, ihl, ihr, eval_map]
  | anded e ih =>
      intro pend
      exact ih pend
  | or l r ihl ihr =>
      intro pend
      simp only [map, skipped, ihl, ihr, eval_map]

end Expression

/-!
## The operator stack

The stack holds operators with the trees of their left operands, and opening
parentheses; its top comes first.
-/

/-- An entry of the operator stack. -/
inductive Pending (alpha : Type) where
  | op (c : Connective) (left : BoolTree alpha)
  | paren

namespace Pending

variable {alpha : Type}

/-- Push an operator behind an operand: one operator of the same or a higher
precedence gives way. -/
def push (c : Connective) (t : BoolTree alpha) :
    List (Pending alpha) -> List (Pending alpha)
  | op Connective.and l :: rest => op c (node Connective.and l t) :: rest
  | op Connective.or l :: rest =>
      match c with
      | Connective.and => op c t :: op Connective.or l :: rest
      | Connective.or => op c (node Connective.or l t) :: rest
  | pending => op c t :: pending

/-- Apply the operators above the topmost parenthesis. -/
def close : List (Pending alpha) -> BoolTree alpha ->
    List (Pending alpha) × BoolTree alpha
  | op c l :: rest, t => close rest (node c l t)
  | pending, t => (pending, t)

/-- Apply all operators. -/
def finish : List (Pending alpha) -> BoolTree alpha -> BoolTree alpha
  | [], t => t
  | op c l :: rest, t => finish rest (node c l t)
  | paren :: rest, t => finish rest t

end Pending

/-- The stack and the last operand behind an expression. -/
def shuntFrom {alpha : Type} : {level : Level} ->
    Expression alpha level -> List (Pending alpha) ->
      List (Pending alpha) × BoolTree alpha
  | _, Expression.test a, pending => (pending, leaf a)
  | _, Expression.group e, pending =>
      let (pending, t) := shuntFrom e (Pending.paren :: pending)
      Pending.close pending t
  | _, Expression.expr e, pending => shuntFrom e pending
  | _, Expression.and l r, pending =>
      let (pending, t) := shuntFrom l pending
      shuntFrom r (Pending.push Connective.and t pending)
  | _, Expression.anded e, pending => shuntFrom e pending
  | _, Expression.or l r, pending =>
      let (pending, t) := shuntFrom l pending
      shuntFrom r (Pending.push Connective.or t pending)

/-- The tree that the operator stack makes of an expression. -/
def shunt {alpha : Type} (e : Expression alpha Level.ored) : BoolTree alpha :=
  Pending.finish (shuntFrom e []).1 (shuntFrom e []).2

/-!
## Leaves
-/

namespace Pending

variable {alpha : Type}

/-- The leaves of the pending operands from left to right. -/
def leaves : List (Pending alpha) -> List alpha
  | [] => []
  | op _ l :: rest => leaves rest ++ l.leaves
  | paren :: rest => leaves rest

theorem leaves_push (c : Connective) (t : BoolTree alpha)
    (pending : List (Pending alpha)) :
    leaves (push c t pending) = leaves pending ++ t.leaves := by
  match pending with
  | [] => rfl
  | paren :: rest => rfl
  | op Connective.and l :: rest => simp [push, leaves, BoolTree.leaves]
  | op Connective.or l :: rest =>
      cases c <;> simp [push, leaves, BoolTree.leaves]

theorem leaves_close (pending : List (Pending alpha)) :
    forall t, leaves (close pending t).1 ++ (close pending t).2.leaves =
      leaves pending ++ t.leaves := by
  induction pending with
  | nil =>
      intro t
      rfl
  | cons item rest ih =>
      intro t
      cases item with
      | op c l => simpa [close, leaves, BoolTree.leaves] using ih (node c l t)
      | paren => rfl

theorem leaves_finish (pending : List (Pending alpha)) :
    forall t, (finish pending t).leaves = leaves pending ++ t.leaves := by
  induction pending with
  | nil =>
      intro t
      rfl
  | cons item rest ih =>
      intro t
      cases item with
      | op c l => simpa [finish, leaves, BoolTree.leaves] using ih (node c l t)
      | paren => exact ih t

end Pending

/-- Shunting keeps the tests in their order. -/
theorem shuntFrom_leaves {alpha : Type} {level : Level}
    (e : Expression alpha level) :
    forall pending, Pending.leaves (shuntFrom e pending).1 ++
        (shuntFrom e pending).2.leaves =
      Pending.leaves pending ++ e.tests := by
  induction e with
  | test a =>
      intro pending
      rfl
  | group e ih =>
      intro pending
      exact (Pending.leaves_close _ _).trans (ih (Pending.paren :: pending))
  | expr e ih =>
      intro pending
      exact ih pending
  | and l r ihl ihr =>
      intro pending
      change Pending.leaves (shuntFrom r (Pending.push _ _ _)).1 ++ _ = _
      rw [shuntFrom, ihr, Pending.leaves_push, ihl, List.append_assoc]
      rfl
  | anded e ih =>
      intro pending
      exact ih pending
  | or l r ihl ihr =>
      intro pending
      change Pending.leaves (shuntFrom r (Pending.push _ _ _)).1 ++ _ = _
      rw [shuntFrom, ihr, Pending.leaves_push, ihl, List.append_assoc]
      rfl

theorem shunt_leaves {alpha : Type} (e : Expression alpha Level.ored) :
    (shunt e).leaves = e.tests := by
  rw [shunt, Pending.leaves_finish, shuntFrom_leaves]
  rfl

/-!
## The value of the stack
-/

namespace Pending

variable {alpha : Type} (v : alpha -> Bool)

/-- The value of `close` for a last operand of value `b`. -/
def closeValue : List (Pending alpha) -> Bool -> Bool
  | op c l :: rest, b => closeValue rest (c.apply (l.eval v) b)
  | _, b => b

/-- The value of `finish` for a last operand of value `b`. -/
def finishValue : List (Pending alpha) -> Bool -> Bool
  | [], b => b
  | op c l :: rest, b => finishValue rest (c.apply (l.eval v) b)
  | paren :: rest, b => finishValue rest b

/-- The stack from the topmost parenthesis on. -/
def belowParen : List (Pending alpha) -> List (Pending alpha)
  | op _ _ :: rest => belowParen rest
  | pending => pending

/-- Above the topmost parenthesis stand only disjunctions. -/
def OrsOnly : List (Pending alpha) -> Prop
  | op Connective.or _ :: rest => OrsOnly rest
  | op Connective.and _ :: _ => False
  | _ => True

/-- Above the topmost parenthesis stand disjunctions under at most one
conjunction. -/
def Orderly : List (Pending alpha) -> Prop
  | op _ _ :: rest => OrsOnly rest
  | _ => True

theorem finish_eval (pending : List (Pending alpha)) :
    forall t, (finish pending t).eval v = finishValue v pending (t.eval v) := by
  induction pending with
  | nil =>
      intro t
      rfl
  | cons item rest ih =>
      intro t
      cases item with
      | op c l => exact ih (node c l t)
      | paren => exact ih t

theorem close_eval (pending : List (Pending alpha)) :
    forall t, (close pending t).2.eval v =
      closeValue v pending (t.eval v) := by
  induction pending with
  | nil =>
      intro t
      rfl
  | cons item rest ih =>
      intro t
      cases item with
      | op c l => exact ih (node c l t)
      | paren => rfl

theorem close_fst (pending : List (Pending alpha)) :
    forall t, (close pending t).1 = belowParen pending := by
  induction pending with
  | nil =>
      intro t
      rfl
  | cons item rest ih =>
      intro t
      cases item with
      | op c l => exact ih (node c l t)
      | paren => rfl

theorem belowParen_belowParen (pending : List (Pending alpha)) :
    belowParen (belowParen pending) = belowParen pending := by
  induction pending with
  | nil => rfl
  | cons item rest ih =>
      cases item with
      | op c l => exact ih
      | paren => rfl

theorem finishValue_belowParen (pending : List (Pending alpha)) :
    forall b, finishValue v pending b =
      finishValue v (belowParen pending) (closeValue v pending b) := by
  induction pending with
  | nil =>
      intro b
      rfl
  | cons item rest ih =>
      intro b
      cases item with
      | op c l => exact ih _
      | paren => rfl

/-- Nothing is pending above the topmost parenthesis once it is on top. -/
theorem closeValue_belowParen (pending : List (Pending alpha)) (b : Bool) :
    closeValue v (belowParen pending) b = b := by
  induction pending with
  | nil => rfl
  | cons item rest ih =>
      cases item with
      | op c l => exact ih
      | paren => rfl

theorem orderly_belowParen (pending : List (Pending alpha)) :
    Orderly (belowParen pending) := by
  induction pending with
  | nil => trivial
  | cons item rest ih =>
      cases item with
      | op c l => exact ih
      | paren => trivial

theorem orderly_push (c : Connective) (t : BoolTree alpha)
    {pending : List (Pending alpha)} (h : Orderly pending) :
    Orderly (push c t pending) := by
  match pending, h with
  | [], _ => trivial
  | paren :: rest, _ => trivial
  | op Connective.and l :: rest, h => exact h
  | op Connective.or l :: rest, h =>
      cases c with
      | and => exact h
      | or => exact h

theorem closeValue_of_orsOnly {pending : List (Pending alpha)}
    (h : OrsOnly pending) :
    exists o, forall b, closeValue v pending b = (o || b) := by
  induction pending with
  | nil => exact ⟨false, fun b => by simp [closeValue]⟩
  | cons item rest ih =>
      cases item with
      | paren => exact ⟨false, fun b => by simp [closeValue]⟩
      | op c l =>
          cases c with
          | and => cases h
          | or =>
              rcases ih h with ⟨o, ho⟩
              refine ⟨o || l.eval v, fun b => ?_⟩
              simp [closeValue, ho, Connective.apply, Bool.or_assoc]

/-!
## Summaries of the stack

Above the topmost parenthesis the stack makes `o || (a && b)` of an operand
`b`; below, it leaves the value `b` or replaces it by a decided one.
-/

/-- The value that `o || (a && b)` has whatever `b` is. -/
def decided (o a : Bool) : Option Bool :=
  if o then some true else if a then none else some false

/-- The stack is summarised by a decided value `d` and the truth values `o`
and `a`. -/
structure Tracks (pending : List (Pending alpha)) (d : Option Bool)
    (o a : Bool) : Prop where
  orderly : Orderly pending
  above : forall b, closeValue v pending b = (o || (a && b))
  below : forall b, finishValue v (belowParen pending) b = d.getD b

variable {v}
variable {pending : List (Pending alpha)} {d : Option Bool} {o a : Bool}

theorem tracks_nil :
    Tracks v ([] : List (Pending alpha)) none false true :=
  ⟨trivial, fun b => by simp [closeValue], fun _ => rfl⟩

theorem Tracks.finishValue_eq (h : Tracks v pending d o a) (b : Bool) :
    finishValue v pending b = d.getD (o || (a && b)) := by
  rw [finishValue_belowParen, h.above, h.below]

theorem Tracks.paren (h : Tracks v pending d o a) :
    Tracks v (paren :: pending) (d.or (decided o a)) false true := by
  refine ⟨trivial, fun b => by simp [closeValue], fun b => ?_⟩
  change finishValue v pending b = _
  rw [h.finishValue_eq]
  cases d <;> cases o <;> cases a <;> rfl

theorem Tracks.close (h : Tracks v pending d o a) (t : BoolTree alpha) :
    Tracks v (close pending t).1 d false true := by
  rw [close_fst]
  refine ⟨orderly_belowParen pending, fun b => ?_, fun b => ?_⟩
  · rw [closeValue_belowParen]
    simp
  · rw [belowParen_belowParen]
    exact h.below b

theorem Tracks.push_and (h : Tracks v pending d o a) (t : BoolTree alpha) :
    Tracks v (push Connective.and t pending) d o (a && t.eval v) := by
  refine ⟨orderly_push Connective.and t h.orderly, fun b => ?_, fun b => ?_⟩
  · have habove := h.above (t.eval v && b)
    rcases pending with _ | ⟨⟨_ | _, l⟩ | _, rest⟩
    · simpa [push, closeValue, Connective.apply, Bool.and_assoc] using habove
    · simpa [push, closeValue, eval, Connective.apply, Bool.and_assoc]
        using habove
    · simpa [push, closeValue, Connective.apply, Bool.and_assoc] using habove
    · simpa [push, closeValue, Connective.apply, Bool.and_assoc] using habove
  · have hbelow := h.below b
    rcases pending with _ | ⟨⟨_ | _, l⟩ | _, rest⟩
    · exact hbelow
    · exact hbelow
    · exact hbelow
    · exact hbelow

theorem Tracks.push_or (h : Tracks v pending d o a) (t : BoolTree alpha) :
    Tracks v (push Connective.or t pending) d (o || (a && t.eval v)) true := by
  refine ⟨orderly_push Connective.or t h.orderly, fun b => ?_, fun b => ?_⟩
  · have habove := h.above
    have horderly := h.orderly
    rcases pending with _ | ⟨⟨c, l⟩ | _, rest⟩
    · have hleft := habove (t.eval v)
      simp only [closeValue] at hleft
      simp only [push, closeValue, Connective.apply]
      rw [← hleft]
      simp
    rotate_left
    · have hleft := habove (t.eval v)
      simp only [closeValue] at hleft
      simp only [push, closeValue, Connective.apply]
      rw [← hleft]
      simp
    · -- the disjunctions below absorb what the top operator yields
      rcases closeValue_of_orsOnly v horderly with ⟨o', ho'⟩
      have hleft := habove (t.eval v)
      cases c with
      | and =>
          simp only [closeValue, ho'] at hleft
          simp only [push, closeValue, ho', eval, ← hleft]
          simp [Connective.apply, Bool.or_assoc]
      | or =>
          simp only [closeValue, ho'] at hleft
          simp only [push, closeValue, ho', eval, ← hleft]
          simp [Connective.apply, Bool.or_assoc]
  · have hbelow := h.below b
    rcases pending with _ | ⟨⟨_ | _, l⟩ | _, rest⟩
    · exact hbelow
    · exact hbelow
    · exact hbelow
    · exact hbelow

end Pending

/-!
## The value of the tree
-/

open Pending

/--
How the summary behind an expression of a level comes from the one before it,
as long as no group stands where the value is decided.
-/
def Agrees {alpha : Type} (v : alpha -> Bool) :
    {level : Level} -> Expression alpha level -> Bool -> Bool -> Bool ->
      Bool -> Bool -> Prop
  | Level.expr, e, o, a, o', a', b => o' = o ∧ a' = a ∧ b = e.eval v
  | Level.anded, e, o, a, o', a', b =>
      o' = o ∧ (a' && b) = (a && e.eval v)
  | Level.ored, e, _, _, o', a', b => (o' || (a' && b)) = e.eval v

/-- An expression on its own starts with nothing pending. -/
def Fresh : Level -> Bool -> Bool -> Prop
  | Level.ored, o, a => o = false ∧ a = true
  | _, _, _ => True

theorem decided_and (o a b : Bool) :
    decided o (a && b) =
      (decided o a).or (if b then none else some false) := by
  cases o <;> cases a <;> cases b <;> rfl

theorem decided_or (b : Bool) :
    decided b true =
      (decided false true).or (if b then some true else none) := by
  cases b <;> rfl

/-- What decides the right operand is looked at only if nothing has decided
the left one. -/
theorem skipped_step {alpha : Type} {v : alpha -> Bool} {left right : Level}
    {l : Expression alpha left} {r : Expression alpha right}
    {d extra : Option Bool} {o a o1 a1 : Bool}
    (h : d.or (l.skipped v (d.or (decided o a))) = none ->
      decided o1 a1 = (decided o a).or extra) :
    (d.or (l.skipped v (d.or (decided o a)))).or
        (r.skipped v ((d.or (l.skipped v (d.or (decided o a)))).or
          (decided o1 a1))) =
      d.or ((l.skipped v (d.or (decided o a))).or
        (r.skipped v ((d.or (decided o a)).or extra))) := by
  rw [← Option.or_assoc]
  cases hleft : d.or (l.skipped v (d.or (decided o a))) with
  | some x => rfl
  | none =>
      have hd : d = none := (Option.or_eq_none_iff.mp hleft).1
      rw [h hleft, hd]
      rfl

theorem shuntFrom_tracks {alpha : Type} {v : alpha -> Bool} {level : Level}
    (e : Expression alpha level) :
    forall {pending : List (Pending alpha)} {d : Option Bool} {o a : Bool},
      Tracks v pending d o a -> Fresh level o a ->
      exists o' a',
        Tracks v (shuntFrom e pending).1
          (d.or (e.skipped v (d.or (decided o a)))) o' a' ∧
        (d.or (e.skipped v (d.or (decided o a))) = none ->
          Agrees v e o a o' a' ((shuntFrom e pending).2.eval v)) := by
  induction e with
  | test t =>
      intro pending d o a h _
      refine ⟨o, a, ?_, fun _ => ⟨rfl, rfl, rfl⟩⟩
      simpa [Expression.skipped, shuntFrom] using h
  | group e ih =>
      intro pending d o a h _
      rcases ih h.paren ⟨rfl, rfl⟩ with ⟨o1, a1, h1, hagrees⟩
      have hclose := h1.close (shuntFrom e (Pending.paren :: pending)).2
      refine ⟨false, true, ?_, ?_⟩
      · have hskipped : d.or ((Expression.group e).skipped v
            (d.or (decided o a))) =
              (d.or (decided o a)).or (e.skipped v
                ((d.or (decided o a)).or (decided false true))) := by
          cases hd : d.or (decided o a) with
          | none =>
              have hnone : d = none := by
                cases d with
                | none => rfl
                | some x => cases hd
              simp [hnone, Expression.skipped, decided]
          | some x =>
              cases d with
              | none => simp [Expression.skipped]
              | some y =>
                  have : y = x := by simpa using hd
                  simp [this]
        rw [hskipped]
        exact hclose
      · intro hnone
        have hpend : d.or (decided o a) = none := by
          cases hd : d.or (decided o a) with
          | none => rfl
          | some x =>
              cases d <;> simp_all [Expression.skipped]
        have hd : d = none := by
          cases d with
          | none => rfl
          | some x => cases hpend
        have hneutral : o = false ∧ a = true := by
          rw [hd] at hpend
          cases o <;> cases a <;> first | exact ⟨rfl, rfl⟩ | cases hpend
        rw [hpend] at hnone hagrees
        have hskip : e.skipped v none = none := by
          simpa [hd, Expression.skipped] using hnone
        have hvalue := hagrees (by simpa [decided] using hskip)
        refine ⟨hneutral.1.symm, hneutral.2.symm, ?_⟩
        change (Pending.close _ _).2.eval v = e.eval v
        rw [close_eval, h1.above]
        exact hvalue
  | expr e ih =>
      intro pending d o a h _
      rcases ih h trivial with ⟨o', a', h', hagrees⟩
      refine ⟨o', a', h', fun hnone => ?_⟩
      rcases hagrees hnone with ⟨ho, ha, hb⟩
      refine ⟨ho, ?_⟩
      rw [ha]
      change (a && (shuntFrom e pending).2.eval v) = _
      rw [hb]
      rfl
  | and l r ihl ihr =>
      intro pending d o a h _
      rcases ihl h trivial with ⟨o1, a1, h1, hl⟩
      rcases ihr (h1.push_and (shuntFrom l pending).2) trivial with
        ⟨o2, a2, h2, hr⟩
      have hdecided : d.or (l.skipped v (d.or (decided o a))) = none ->
          decided o1 (a1 && (shuntFrom l pending).2.eval v) =
            (decided o a).or (if l.eval v then none else some false) := by
        intro hnone
        rcases hl hnone with ⟨ho, ha⟩
        rw [ho, ha]
        exact decided_and o a (l.eval v)
      have hskipped := skipped_step (r := r) hdecided
      refine ⟨o2, a2, ?_, ?_⟩
      · change Tracks v _ (d.or ((l.skipped v _).or (r.skipped v _))) _ _
        rw [← hskipped]
        exact h2
      · intro hnone
        change d.or ((l.skipped v _).or (r.skipped v _)) = none at hnone
        rw [← hskipped] at hnone
        rcases hr hnone with ⟨ho2, ha2, hb2⟩
        rcases hl (Option.or_eq_none_iff.mp hnone).1 with ⟨ho1, hb1⟩
        refine ⟨ho2.trans ho1, ?_⟩
        change (a2 && (shuntFrom r _).2.eval v) = (a && (l.eval v && r.eval v))
        rw [ha2, hb2, hb1, Bool.and_assoc]
  | anded e ih =>
      intro pending d o a h hfresh
      rcases ih h trivial with ⟨o', a', h', hagrees⟩
      refine ⟨o', a', h', fun hnone => ?_⟩
      rcases hagrees hnone with ⟨ho, hb⟩
      change (o' || (a' && (shuntFrom e pending).2.eval v)) = _
      rw [hb, ho, hfresh.1, hfresh.2]
      rfl
  | or l r ihl ihr =>
      intro pending d o a h hfresh
      rcases ihl h hfresh with ⟨o1, a1, h1, hl⟩
      rcases ihr (h1.push_or (shuntFrom l pending).2) trivial with
        ⟨o2, a2, h2, hr⟩
      have hdecided : d.or (l.skipped v (d.or (decided o a))) = none ->
          decided (o1 || (a1 && (shuntFrom l pending).2.eval v)) true =
            (decided o a).or (if l.eval v then some true else none) := by
        intro hnone
        have hb1 : (o1 || (a1 && (shuntFrom l pending).2.eval v)) =
            l.eval v := hl hnone
        rw [hb1, hfresh.1, hfresh.2]
        exact decided_or (l.eval v)
      have hskipped := skipped_step (r := r) hdecided
      refine ⟨o2, a2, ?_, ?_⟩
      · change Tracks v _ (d.or ((l.skipped v _).or (r.skipped v _))) _ _
        rw [← hskipped]
        exact h2
      · intro hnone
        change d.or ((l.skipped v _).or (r.skipped v _)) = none at hnone
        rw [← hskipped] at hnone
        rcases hr hnone with ⟨ho2, hb2⟩
        have hb1 : (o1 || (a1 && (shuntFrom l pending).2.eval v)) =
            l.eval v := hl (Option.or_eq_none_iff.mp hnone).1
        change (o2 || (a2 && (shuntFrom r _).2.eval v)) =
          (l.eval v || r.eval v)
        rw [hb2, ho2, hb1, Bool.true_and]

/--
The tree has the value of the expression, unless a group stands where the value
is decided already; then it has the value that was decided there.
-/
theorem shunt_eval {alpha : Type} (v : alpha -> Bool)
    (e : Expression alpha Level.ored) :
    (shunt e).eval v = (e.skipped v none).getD (e.eval v) := by
  rcases shuntFrom_tracks e tracks_nil ⟨rfl, rfl⟩ with ⟨o, a, h, hagrees⟩
  have hskipped : (none : Option Bool).or
      (e.skipped v ((none : Option Bool).or (decided false true))) =
        e.skipped v none := rfl
  rw [hskipped] at h hagrees
  rw [shunt, finish_eval, h.finishValue_eq]
  cases hcase : e.skipped v none with
  | none => exact hagrees hcase
  | some d => rfl

/-- The tree has the value of the expression exactly if no value that was
decided in front of a group differs from it. -/
theorem shunt_eval_eq_iff {alpha : Type} (v : alpha -> Bool)
    (e : Expression alpha Level.ored) :
    (shunt e).eval v = e.eval v <->
      e.skipped v none = none ∨ e.skipped v none = some (e.eval v) := by
  rw [shunt_eval]
  cases e.skipped v none with
  | none => simp
  | some d => simp

end Matcher
end LuaSandbox
