import LuaSandbox.Matcher.Layout
import LuaSandbox.Matcher.Reading
import LuaSandbox.Matcher.Slots

/-!
# The parser's stacks

Running the actions of an expression shunts its operators: the output stack
holds the postfix form of the pending trees and the operator stack their
operators.
-/

namespace LuaSandbox
namespace Matcher

open Foundation Util
open BoolTree

/-!
## Stacks
-/

namespace Pending

/-- The entry of the operator stack. -/
def opNode : Pending LeafTest -> MatchNodeTmp
  | op c _ => Matcher.opNode (connectiveOp c)
  | paren => Matcher.opNode MatchOperation.opOpen

/-- What the pending operands have put out, the topmost last. -/
def output : List (Pending LeafTest) -> List MatchNodeTmp
  | [] => []
  | op _ l :: rest => output rest ++ postfixNodes l
  | paren :: rest => output rest

end Pending

/-- The stacks hold the pending operators, and the nodes of an operand behind
what they have put out. -/
structure Stacked (pending : List (Pending LeafTest))
    (operand : List MatchNodeTmp) (ctx : Context) : Prop where
  out_eq : ctx.out = Pending.output pending ++ operand
  ops_eq : ctx.ops = pending.map Pending.opNode
  idle : Idle ctx

theorem stacked_init : Stacked [] [] Context.init :=
  ⟨rfl, rfl, rfl, rfl⟩

variable {pending : List (Pending LeafTest)} {ctx : Context}

/-- What the operator stack does not touch. -/
structure Framed (ctx ctx' : Context) : Prop where
  mn_eq : ctx'.mn = ctx.mn
  tms_eq : ctx'.tms = ctx.tms
  vals_eq : ctx'.vals = ctx.vals
  val_eq : ctx'.val = ctx.val

theorem Framed.idle {ctx' : Context} (h : Framed ctx ctx') (hidle : Idle ctx) :
    Idle ctx' :=
  ⟨h.mn_eq.trans hidle.mn_eq, h.tms_eq.trans hidle.tms_eq⟩

theorem pushOp_framed (ctx : Context) (op : MatchOperation) :
    Framed ctx (Matcher.pushOp ctx op) := by
  unfold Matcher.pushOp
  split
  · exact ⟨rfl, rfl, rfl, rfl⟩
  · split <;> exact ⟨rfl, rfl, rfl, rfl⟩

theorem popToParen_framed (ctx : Context) :
    Framed ctx (Matcher.popToParen ctx) :=
  ⟨rfl, rfl, rfl, rfl⟩

/-- Pushing a logical operator lets at most one other go. -/
theorem Stacked.pushOp {t : BoolTree LeafTest}
    (h : Stacked pending (postfixNodes t) ctx) (c : Connective) :
    Stacked (Pending.push c t pending) []
      (Matcher.pushOp ctx (connectiveOp c)) := by
  rcases h with ⟨hout, hops, hidle⟩
  match pending, hout, hops with
  | [], hout, hops =>
      simp only [List.map_nil] at hops
      refine ⟨?_, ?_, (pushOp_framed ctx _).idle hidle⟩ <;>
        simp [Matcher.pushOp, hops, hout, Pending.push, Pending.output,
          Pending.opNode]
  | Pending.paren :: rest, hout, hops =>
      have hlt : ¬ connectiveOp c = MatchOperation.opOpen ∧
          MatchOperation.opOpen.code < (connectiveOp c).code := by
        cases c <;> decide
      simp only [List.map_cons, Pending.opNode] at hops
      refine ⟨?_, ?_, (pushOp_framed ctx _).idle hidle⟩ <;>
        simp [Matcher.pushOp, hops, hout, Pending.push, Pending.output,
          Pending.opNode, Matcher.opNode, hlt]
  | Pending.op Connective.and l :: rest, hout, hops =>
      have hle : ¬ (connectiveOp c = MatchOperation.opOpen ∨
          (connectiveOp Connective.and).code < (connectiveOp c).code) := by
        cases c <;> decide
      simp only [List.map_cons, Pending.opNode] at hops
      refine ⟨?_, ?_, (pushOp_framed ctx _).idle hidle⟩ <;>
        simp [Matcher.pushOp, hops, hout, Pending.push, Pending.output,
          Pending.opNode, Matcher.opNode, hle]
  | Pending.op Connective.or l :: rest, hout, hops =>
      simp only [List.map_cons, Pending.opNode] at hops
      cases c with
      | and =>
          have hlt : (connectiveOp Connective.or).code <
              (connectiveOp Connective.and).code := by
            decide
          refine ⟨?_, ?_, (pushOp_framed ctx _).idle hidle⟩ <;>
            simp [Matcher.pushOp, hops, hout, Pending.push,
              Pending.output, Pending.opNode, Matcher.opNode, hlt]
      | or =>
          have hle : ¬ (connectiveOp Connective.or = MatchOperation.opOpen) := by
            decide
          refine ⟨?_, ?_, (pushOp_framed ctx _).idle hidle⟩ <;>
            simp [Matcher.pushOp, hops, hout, Pending.push,
              Pending.output, Pending.opNode, Matcher.opNode, hle]

theorem Stacked.pushOpen (h : Stacked pending [] ctx) :
    Stacked (Pending.paren :: pending) []
      (Matcher.pushOp ctx MatchOperation.opOpen) := by
  rcases h with ⟨hout, hops, hidle⟩
  cases hcase : ctx.ops with
  | nil =>
      rw [hops] at hcase
      refine ⟨?_, ?_, (pushOp_framed ctx _).idle hidle⟩ <;>
        simp [Matcher.pushOp, hops, hcase, hout, Pending.output,
          Pending.opNode]
  | cons top rest =>
      rw [hops] at hcase
      refine ⟨?_, ?_, (pushOp_framed ctx _).idle hidle⟩ <;>
        simp [Matcher.pushOp, hops, hcase, hout, Pending.output,
          Pending.opNode]

@[simp] theorem notOpen_op (c : Connective) (l : BoolTree LeafTest) :
    notOpen (Pending.op c l).opNode = true := by
  cases c <;> rfl

@[simp] theorem notOpen_paren : notOpen Pending.paren.opNode = false := rfl

/-- The operators above the parenthesis close the operand. -/
theorem output_close (pending : List (Pending LeafTest)) :
    forall t, Pending.output pending ++ postfixNodes t ++
        (pending.map Pending.opNode).takeWhile notOpen =
      Pending.output (Pending.close pending t).1 ++
        postfixNodes (Pending.close pending t).2 := by
  induction pending with
  | nil =>
      intro t
      simp [Pending.close]
  | cons p rest ih =>
      intro t
      cases p with
      | paren => simp [Pending.close, Pending.output]
      | op c l =>
          rw [List.map_cons, List.takeWhile_cons_of_pos (notOpen_op c l)]
          simpa [Pending.output, Pending.opNode, Pending.close] using
            ih (node c l t)

theorem dropWhile_close (pending : List (Pending LeafTest)) :
    forall t, (pending.map Pending.opNode).dropWhile notOpen =
      (Pending.close pending t).1.map Pending.opNode := by
  induction pending with
  | nil =>
      intro t
      rfl
  | cons p rest ih =>
      intro t
      cases p with
      | paren => simp [Pending.close]
      | op c l =>
          rw [List.map_cons, List.dropWhile_cons_of_pos (notOpen_op c l)]
          exact ih (node c l t)

theorem Stacked.popToParen {t : BoolTree LeafTest}
    (h : Stacked pending (postfixNodes t) ctx) :
    Stacked (Pending.close pending t).1
      (postfixNodes (Pending.close pending t).2) (Matcher.popToParen ctx) := by
  refine ⟨?_, ?_, (popToParen_framed ctx).idle h.idle⟩
  · change ctx.out ++ ctx.ops.takeWhile notOpen = _
    rw [h.out_eq, h.ops_eq]
    exact output_close pending t
  · change ctx.ops.dropWhile notOpen = _
    rw [h.ops_eq]
    exact dropWhile_close pending t

theorem output_finish (pending : List (Pending LeafTest)) :
    forall t, Pending.output pending ++ postfixNodes t ++
        (pending.map Pending.opNode).filter notOpen =
      postfixNodes (Pending.finish pending t) := by
  induction pending with
  | nil =>
      intro t
      simp [Pending.output, Pending.finish]
  | cons p rest ih =>
      intro t
      cases p with
      | paren => simpa [Pending.output, Pending.finish] using ih t
      | op c l =>
          rw [List.map_cons, List.filter_cons_of_pos (notOpen_op c l)]
          simpa [Pending.output, Pending.opNode, Pending.finish] using
            ih (node c l t)

theorem Stacked.popAllOps {t : BoolTree LeafTest}
    (h : Stacked pending (postfixNodes t) ctx) :
    (Matcher.popAllOps ctx).out = postfixNodes (Pending.finish pending t) := by
  change ctx.out ++ ctx.ops.filter notOpen = _
  rw [h.out_eq, h.ops_eq]
  exact output_finish pending t

/-!
## Tests
-/

/-- The node that running a list of actions puts out last. -/
def lastNode (ctx : Context) : MatchNodeTmp :=
  ctx.out.getLastD initMatchNode

theorem Tested.lastNode_eq {form : TestForm} {ctx' : Context}
    (h : Tested form ctx ctx') : lastNode ctx' =
      form.node (ctx.vals ctx.val) (ctx.vals (ctx.val + 1)) := by
  rw [lastNode, h.out_eq]
  simp

/-- A test puts out one node, which is not an operator. -/
theorem Stacked.test (h : Stacked pending [] ctx) (t : TestText) :
    (lastNode (yyDone t.actions ctx)).op.isLogical = false ∧
      Stacked pending [lastNode (yyDone t.actions ctx)]
        (yyDone t.actions ctx) := by
  have htested : Tested t.form ctx (yyDone t.actions ctx) :=
    t.form.tested h.idle
  rw [htested.lastNode_eq]
  refine ⟨t.form.node_isLogical _ _, ?_, ?_, htested.idle⟩
  · rw [htested.out_eq, h.out_eq, List.append_nil]
  · rw [htested.ops_eq, h.ops_eq]

/-!
## Expressions
-/

namespace Expression

/-- The tests with the nodes that the actions put out for them. -/
def annotate : {level : Level} -> Expression TestText level -> Context ->
    Expression (TestText × MatchNodeTmp) level
  | _, test t, ctx => test (t, lastNode (yyDone t.actions ctx))
  | _, group e, ctx =>
      group (e.annotate (pushOp ctx MatchOperation.opOpen))
  | _, expr e, ctx => expr (e.annotate ctx)
  | _, and l r, ctx =>
      and (l.annotate ctx)
        (r.annotate (pushOp (yyDone l.actions ctx) MatchOperation.opAnd))
  | _, anded e, ctx => anded (e.annotate ctx)
  | _, or l r, ctx =>
      or (l.annotate ctx)
        (r.annotate (pushOp (yyDone l.actions ctx) MatchOperation.opOr))

theorem map_fst_annotate {level : Level} (e : Expression TestText level) :
    forall ctx, (e.annotate ctx).map Prod.fst = e := by
  induction e with
  | test t =>
      intro ctx
      rfl
  | group e ih =>
      intro ctx
      simp only [annotate, map, ih]
  | expr e ih =>
      intro ctx
      simp only [annotate, map, ih]
  | and l r ihl ihr =>
      intro ctx
      simp only [annotate, map, ihl, ihr]
  | anded e ih =>
      intro ctx
      simp only [annotate, map, ih]
  | or l r ihl ihr =>
      intro ctx
      simp only [annotate, map, ihl, ihr]

end Expression

/-!
## What the tests leave behind
-/

/-- The value that tests leave for the field index of the next one. -/
def leftField (ts : List TestText) (f : Int) : Int :=
  ts.foldl (fun f t => t.form.storesField.getD f) f

/-- The value that tests leave for the array index of the next one. -/
def leftArray (ts : List TestText) (a : Int) : Int :=
  ts.foldl (fun a t => t.form.storesArray.getD a) a

/-- The nodes of consecutive tests. -/
def testNodes (f a : Int) : List TestText -> List MatchNodeTmp
  | [] => []
  | t :: rest =>
      t.form.node f a ::
        testNodes (t.form.storesField.getD f) (t.form.storesArray.getD a) rest

theorem testNodes_append (xs ys : List TestText) :
    forall f a, testNodes f a (xs ++ ys) =
      testNodes f a xs ++ testNodes (leftField xs f) (leftArray xs a) ys := by
  induction xs with
  | nil =>
      intro f a
      rfl
  | cons t rest ih =>
      intro f a
      simp only [List.cons_append, testNodes, ih]
      rfl

/-- What running tests does to the semantic values. -/
structure Left (ts : List TestText) (ctx ctx' : Context) : Prop where
  idle : Idle ctx'
  val_eq : ctx'.val = ctx.val
  field_eq : ctx'.vals ctx.val = leftField ts (ctx.vals ctx.val)
  array_eq : ctx'.vals (ctx.val + 1) = leftArray ts (ctx.vals (ctx.val + 1))

theorem Left.framed {ts : List TestText} {ctx1 ctx2 : Context}
    (h : Left ts ctx ctx1) (hframed : Framed ctx1 ctx2) : Left ts ctx ctx2 :=
  ⟨hframed.idle h.idle, hframed.val_eq.trans h.val_eq,
    by rw [hframed.vals_eq]; exact h.field_eq,
    by rw [hframed.vals_eq]; exact h.array_eq⟩

theorem Left.append {xs ys : List TestText} {ctx1 ctx2 : Context}
    (h1 : Left xs ctx ctx1) (h2 : Left ys ctx1 ctx2) :
    Left (xs ++ ys) ctx ctx2 := by
  refine ⟨h2.idle, h2.val_eq.trans h1.val_eq, ?_, ?_⟩
  · have h := h2.field_eq
    rw [h1.val_eq, h1.field_eq] at h
    rw [h, leftField, leftField, leftField, List.foldl_append]
  · have h := h2.array_eq
    rw [h1.val_eq, h1.array_eq] at h
    rw [h, leftArray, leftArray, leftArray, List.foldl_append]

/-- The nodes of an expression are those of its tests in a row. -/
theorem annotate_testNodes {level : Level} (e : Expression TestText level) :
    forall {ctx : Context}, Idle ctx ->
      (e.annotate ctx).tests.map Prod.snd =
          testNodes (ctx.vals ctx.val) (ctx.vals (ctx.val + 1)) e.tests ∧
        Left e.tests ctx (yyDone e.actions ctx) := by
  induction e with
  | test t =>
      intro ctx h
      have htested : Tested t.form ctx (yyDone t.actions ctx) :=
        t.form.tested h
      refine ⟨?_, htested.idle, htested.val_eq, htested.field_eq,
        htested.array_eq⟩
      exact congrArg (fun mn => [mn]) htested.lastNode_eq
  | group e ih =>
      intro ctx h
      have hopen := pushOp_framed ctx MatchOperation.opOpen
      rcases ih (hopen.idle h) with ⟨hnodes, hleft⟩
      rw [hopen.vals_eq, hopen.val_eq] at hnodes
      refine ⟨hnodes, ?_⟩
      have hrun : yyDone (Expression.group e).actions ctx =
          popToParen (yyDone e.actions
            (pushOp ctx MatchOperation.opOpen)) := by
        rw [Expression.actions, yyDone, List.foldl_cons, List.foldl_append]
        rfl
      rw [hrun]
      have hstart : Left [] ctx (pushOp ctx MatchOperation.opOpen) :=
        ⟨hopen.idle h, hopen.val_eq, by rw [hopen.vals_eq]; rfl,
          by rw [hopen.vals_eq]; rfl⟩
      exact (hstart.append hleft).framed (popToParen_framed _)
  | expr e ih =>
      intro ctx h
      exact ih h
  | and l r ihl ihr =>
      intro ctx h
      rcases ihl h with ⟨hnodesl, hleftl⟩
      have hop := pushOp_framed (yyDone l.actions ctx) MatchOperation.opAnd
      have hleft := hleftl.framed hop
      rcases ihr hleft.idle with ⟨hnodesr, hleftr⟩
      rw [hleft.val_eq, hleft.field_eq, hleft.array_eq] at hnodesr
      refine ⟨?_, ?_⟩
      · simp only [Expression.annotate, Expression.tests, List.map_append,
          hnodesl, hnodesr, testNodes_append]
      · rw [Expression.actions, yyDone_append]
        exact hleft.append hleftr
  | anded e ih =>
      intro ctx h
      exact ih h
  | or l r ihl ihr =>
      intro ctx h
      rcases ihl h with ⟨hnodesl, hleftl⟩
      have hop := pushOp_framed (yyDone l.actions ctx) MatchOperation.opOr
      have hleft := hleftl.framed hop
      rcases ihr hleft.idle with ⟨hnodesr, hleftr⟩
      rw [hleft.val_eq, hleft.field_eq, hleft.array_eq] at hnodesr
      refine ⟨?_, ?_⟩
      · simp only [Expression.annotate, Expression.tests, List.map_append,
          hnodesl, hnodesr, testNodes_append]
      · rw [Expression.actions, yyDone_append]
        exact hleft.append hleftr

/-!
## The shunted tree
-/

/--
Behind the actions of an expression the stacks are those of the shunted
expression, with the annotated nodes as its tests.
-/
theorem yyDone_actions {level : Level} (e : Expression TestText level) :
    forall {pending : List (Pending LeafTest)} {ctx : Context},
      Stacked pending [] ctx ->
      exists e' : Expression LeafTest level,
        e'.map Subtype.val = (e.annotate ctx).map Prod.snd ∧
        Stacked (shuntFrom e' pending).1
          (postfixNodes (shuntFrom e' pending).2) (yyDone e.actions ctx) := by
  induction e with
  | test t =>
      intro pending ctx h
      rcases h.test t with ⟨hop, hstacked⟩
      exact ⟨Expression.test ⟨_, hop⟩, rfl, hstacked⟩
  | group e ih =>
      intro pending ctx h
      rcases ih h.pushOpen with ⟨e', he', hstacked⟩
      refine ⟨Expression.group e', congrArg Expression.group he', ?_⟩
      have hclose := hstacked.popToParen
      have hrun : yyDone (Expression.group e).actions ctx =
          popToParen (yyDone e.actions
            (pushOp ctx MatchOperation.opOpen)) := by
        rw [Expression.actions, yyDone, List.foldl_cons, List.foldl_append]
        rfl
      rw [hrun]
      exact hclose
  | expr e ih =>
      intro pending ctx h
      rcases ih h with ⟨e', he', hstacked⟩
      exact ⟨Expression.expr e', congrArg Expression.expr he', hstacked⟩
  | and l r ihl ihr =>
      intro pending ctx h
      rcases ihl h with ⟨l', hl', hleft⟩
      rcases ihr (hleft.pushOp Connective.and) with ⟨r', hr', hright⟩
      refine ⟨Expression.and l' r', ?_, ?_⟩
      · simp only [Expression.map, Expression.annotate, hl', hr']
        rfl
      · rw [Expression.actions, yyDone_append]
        exact hright
  | anded e ih =>
      intro pending ctx h
      rcases ih h with ⟨e', he', hstacked⟩
      exact ⟨Expression.anded e', congrArg Expression.anded he', hstacked⟩
  | or l r ihl ihr =>
      intro pending ctx h
      rcases ihl h with ⟨l', hl', hleft⟩
      rcases ihr (hleft.pushOp Connective.or) with ⟨r', hr', hright⟩
      refine ⟨Expression.or l' r', ?_, ?_⟩
      · simp only [Expression.map, Expression.annotate, hl', hr']
        rfl
      · rw [Expression.actions, yyDone_append]
        exact hright

/-- The output of the whole run is the postfix form of the shunted tree. -/
theorem yyDone_out (e : Expression TestText Level.ored) :
    exists e' : Expression LeafTest Level.ored,
      e'.map Subtype.val = (e.annotate Context.init).map Prod.snd ∧
      (yyDone (e.actions ++ [Action.popAllOps]) Context.init).out =
        postfixNodes (shunt e') := by
  rcases yyDone_actions e stacked_init with ⟨e', he', hstacked⟩
  refine ⟨e', he', ?_⟩
  rw [yyDone_append]
  exact hstacked.popAllOps

end Matcher
end LuaSandbox
