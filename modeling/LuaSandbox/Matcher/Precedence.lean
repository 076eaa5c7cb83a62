import LuaSandbox.Matcher.Refinement
import LuaSandbox.Matcher.Shunting

/-!
# Precedence of the matcher operators

How the value of a compiled matcher relates to the recursive value of the
expression it was compiled from.
-/

namespace LuaSandbox
namespace Matcher

open Foundation Util
open BoolTree

/-!
## Compiled expressions
-/

/-- A text spells an expression, and the tests of a matcher are compiled from
the tests of the expression. -/
structure Reading (exp : List UInt8) (mm : LsbMessageMatcher)
    (e : Expression (TestText × MatchNode) Level.ored) : Prop where
  spells : exists gap s gap', exp = gap ++ s ++ gap' ∧ Gap gap ∧ Gap gap' ∧
    (e.map Prod.fst).Spells s
  nodes : e.tests.map Prod.snd = mm.testNodes

/-- The evaluation of a test on a message. -/
def evalTest (mem : Memory) (m : HekaMessage)
    (x : TestText × MatchNode) : Bool :=
  evalNode mem x.2 m

/-- An accepted text compiles to the code of a shunted expression. -/
theorem lsbCreateMessageMatcher_compiled {exp : List UInt8}
    {e : Expression TestText Level.ored} (hoperators : e.operators <= 127)
    (hactions : yyparse exp = some (e.actions ++ [Action.popAllOps])) :
    exists (e' : Expression LeafTest Level.ored) (mm : LsbMessageMatcher),
      e'.map Subtype.val = (e.annotate Context.init).map Prod.snd ∧
        lsbCreateMessageMatcher exp = some mm ∧ Compiled (shunt e') mm := by
  rcases yyDone_out e with ⟨e', he', hout⟩
  have htests : e'.tests.length = e.tests.length := by
    have hlengths := congrArg (fun x => x.tests.length) he'
    simp only [Expression.tests_map, List.length_map] at hlengths
    rw [hlengths]
    conv_rhs => rw [← Expression.map_fst_annotate e Context.init,
      Expression.tests_map, List.length_map]
  have hleaves : (shunt e').leaves.length <= maxLeaves := by
    rw [shunt_leaves, htests, Expression.length_tests]
    exact Nat.succ_le_succ hoperators
  rcases makeMatcher_linkedNodes hleaves with ⟨mm, hmake, hcompiled⟩
  refine ⟨e', mm, he', ?_, hcompiled⟩
  unfold lsbCreateMessageMatcher
  rw [hactions]
  simp only [hout, makeTree_postfixNodes, hmake]

/-- The tests of an expression with their compiled nodes. -/
def compiledExpression (e : Expression TestText Level.ored) :
    Expression (TestText × MatchNode) Level.ored :=
  (e.annotate Context.init).map (fun x => (x.1, copyNode 0 x.2))

theorem map_fst_compiledExpression (e : Expression TestText Level.ored) :
    (compiledExpression e).map Prod.fst = e := by
  rw [compiledExpression, Expression.map_map]
  exact Expression.map_fst_annotate e Context.init

/-- The value of the compiled matcher of an expression, for any evaluation of
its tests. -/
theorem compiledExpression_reading {exp gap s gap' : List UInt8}
    {e : Expression TestText Level.ored} (hexp : exp = gap ++ s ++ gap')
    (hgap : Gap gap) (hgap' : Gap gap') (hs : e.Spells s)
    (hoperators : e.operators <= 127)
    (hactions : yyparse exp = some (e.actions ++ [Action.popAllOps])) :
    exists mm, lsbCreateMessageMatcher exp = some mm ∧
      Reading exp mm (compiledExpression e) ∧
      forall v : MatchNode -> Bool,
        evalLoop (fun _ mn => v mn) mm (mm.stop + 1) (0, false) =
          some (((compiledExpression e).skipped (fun x => v x.2) none).getD
            ((compiledExpression e).eval (fun x => v x.2))) := by
  rcases lsbCreateMessageMatcher_compiled hoperators hactions with
    ⟨e', mm, he', hcreate, hcompiled⟩
  have hsnd : (compiledExpression e).map Prod.snd =
      e'.map (fun a => copyNode 0 a.1) := by
    have hnodes := congrArg (Expression.map (copyNode 0)) he'
    simp only [Expression.map_map] at hnodes
    simp only [compiledExpression, Expression.map_map]
    exact hnodes.symm
  refine ⟨mm, hcreate, ⟨⟨gap, s, gap', hexp, hgap, hgap', ?_⟩, ?_⟩,
    fun v => ?_⟩
  · rw [map_fst_compiledExpression]
    exact hs
  · rw [hcompiled.testNodes_eq, shunt_leaves, ← Expression.tests_map, hsnd,
      Expression.tests_map]
  · rw [hcompiled.evalLoop_eq_eval, shunt_eval]
    have heval := congrArg (Expression.eval v) hsnd
    have hskipped := congrArg (fun x => Expression.skipped v x none) hsnd
    simp only [Expression.eval_map] at heval
    simp only [Expression.skipped_map] at hskipped
    rw [heval, hskipped]

/-!
## Precedence
-/

/--
The compiled matcher has the value of the expression under the documented
precedence exactly if no parenthesised group stands where the value is decided
already, or the value that was decided in front of the first such group is the
value of the expression.
-/
theorem lsbEvalMessageMatcher_eq_iff {exp : List UInt8}
    (h : (yyparse exp).isSome = true) :
    exists mm e, lsbCreateMessageMatcher exp = some mm ∧ Reading exp mm e ∧
      forall mem m,
        lsbEvalMessageMatcher mem mm m = some (e.eval (evalTest mem m)) <->
          e.skipped (evalTest mem m) none = none ∨
          e.skipped (evalTest mem m) none =
            some (e.eval (evalTest mem m)) := by
  rcases Option.isSome_iff_exists.mp h with ⟨actions, hactions⟩
  rcases yyparse_reads hactions with
    ⟨e, gap, s, gap', hexp, hgap, hgap', hs, heq, hoperators⟩
  rw [heq] at hactions
  rcases compiledExpression_reading hexp hgap hgap' hs hoperators hactions
    with ⟨mm, hcreate, hreading, hvalue⟩
  refine ⟨mm, compiledExpression e, hcreate, hreading, fun mem m => ?_⟩
  have hrun : lsbEvalMessageMatcher mem mm m =
      some (((compiledExpression e).skipped (evalTest mem m) none).getD
        ((compiledExpression e).eval (evalTest mem m))) :=
    hvalue (fun mn => evalNode mem mn m)
  rw [hrun, Option.some.injEq]
  cases (compiledExpression e).skipped (evalTest mem m) none with
  | none => simp
  | some d => simp

theorem lsbEvalMessageMatcher_eq_iff_true :
    exists mm e, lsbCreateMessageMatcher (ascii "TRUE") = some mm ∧
      Reading (ascii "TRUE") mm e ∧
      forall mem m,
        lsbEvalMessageMatcher mem mm m = some (e.eval (evalTest mem m)) <->
          e.skipped (evalTest mem m) none = none ∨
          e.skipped (evalTest mem m) none =
            some (e.eval (evalTest mem m)) :=
  lsbEvalMessageMatcher_eq_iff (by decide +kernel)

/-!
## A group behind a decided operand
-/

/-- The form of a test that does not look at the message. -/
def constantForm (value : Bool) : TestForm :=
  TestForm.header ⟨[Action.setOp
    (if value then MatchOperation.opTrue else MatchOperation.opFalse)], by
      rw [List.forall_mem_singleton]
      cases value <;> rfl⟩

/-- A test whose text is all that is left of the expression. -/
def textOf (word : List UInt8) (form : TestForm)
    (h : (Peg.denote (fun _ _ k => (none, k)) Grammar.test (word ++ [])
      ⟨[], [], 0⟩).1 = some ([], form.actions)) : TestText :=
  ⟨word, form,
    ⟨fun _ _ k => (none, k), [], ⟨[], [], 0⟩, _,
      (fun _ _ _ _ _ hnone => by cases hnone), (fun b hb => by cases hb),
      Prod.ext h rfl⟩⟩

/-- The expression of `FALSE && (TRUE) || TRUE`. -/
def groupedTexts : Expression TestText Level.ored :=
  Expression.or
    (Expression.anded
      (Expression.and
        (Expression.expr (Expression.test
          (textOf (ascii "FALSE ") (constantForm false)
            (by decide +kernel))))
        (Expression.group (Expression.anded (Expression.expr
          (Expression.test
            (textOf (ascii "TRUE") (constantForm true)
              (by decide +kernel))))))))
    (Expression.expr (Expression.test
      (textOf (ascii "TRUE") (constantForm true)
        (by decide +kernel))))

theorem yyparse_grouped : yyparse (ascii "FALSE && (TRUE) || TRUE") =
    some (groupedTexts.actions ++ [Action.popAllOps]) := by
  decide +kernel

theorem gap_of_all {s : List UInt8}
    (h : s.all isSpace = true) : Gap s :=
  fun b hb => List.all_eq_true.mp h b hb

theorem gap_space : Gap (ascii " ") :=
  gap_of_all (by decide)

theorem spells_grouped :
    groupedTexts.Spells (ascii "FALSE && (TRUE) || TRUE") := by
  refine ⟨ascii "FALSE && (TRUE)", ascii " ", ascii " ", ascii "TRUE",
    by decide +kernel, gap_of_all (by decide +kernel),
    gap_of_all (by decide +kernel), ?_, rfl⟩
  refine ⟨ascii "FALSE ", [], ascii " ", ascii "(TRUE)", by decide +kernel,
    gap_nil, gap_of_all (by decide +kernel), rfl, ?_⟩
  exact ⟨[], ascii "TRUE", [], by decide +kernel, gap_nil, gap_nil, rfl⟩

/-- The parenthesis that stays on the operator stack makes the disjunction
part of the right operand of the conjunction. -/
theorem lsbEvalMessageMatcher_grouped :
    exists mm e,
      lsbCreateMessageMatcher (ascii "FALSE && (TRUE) || TRUE") = some mm ∧
      Reading (ascii "FALSE && (TRUE) || TRUE") mm e ∧
      e.map Prod.fst = groupedTexts ∧
      forall mem m, e.eval (evalTest mem m) = true ∧
        lsbEvalMessageMatcher mem mm m = some false := by
  have htext : ascii "FALSE && (TRUE) || TRUE" =
      [] ++ ascii "FALSE && (TRUE) || TRUE" ++ [] := by
    rw [List.nil_append, List.append_nil]
  rcases compiledExpression_reading htext gap_nil gap_nil spells_grouped
    (by decide) yyparse_grouped with ⟨mm, hcreate, hreading, hvalue⟩
  refine ⟨mm, compiledExpression groupedTexts, hcreate, hreading,
    map_fst_compiledExpression groupedTexts, fun mem m => ⟨rfl, ?_⟩⟩
  exact hvalue (fun mn => evalNode mem mn m)

end Matcher
end LuaSandbox
