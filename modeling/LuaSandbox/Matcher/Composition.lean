import LuaSandbox.Matcher.Precedence
import LuaSandbox.Matcher.Standalone

/-!
# Composition of tests

When the node of a test in an expression is the node that the test has on its
own.  Only the index of a field that is not written can differ: it is what the
tests before left behind in a semantic value.
-/

namespace LuaSandbox
namespace Matcher

open Foundation Util

/-!
## Nodes of tests
-/

theorem copyNode_u {mn : MatchNodeTmp} (p : UInt8)
    (h : mn.op.isLogical = false) :
    (copyNode p mn).u = MatchIndex.idx mn.fi mn.ai := by
  simp only [copyNode, h, Bool.false_eq_true, if_false]

/-- The semantic values matter only where an index is not there. -/
theorem copyNode_node_eq_iff (form : TestForm) (f a : Int) :
    copyNode 0 (form.node f a) = copyNode 0 (form.node 0 0) <->
      (form.omitsField -> UInt8.ofInt f = 0) ∧
        (form.omitsArray -> UInt8.ofInt a = 0) := by
  match form with
  | TestForm.header body =>
      exact ⟨fun _ => ⟨fun h => h.elim, fun h => h.elim⟩, fun _ => rfl⟩
  | TestForm.timestamp relation none =>
      exact ⟨fun _ => ⟨fun h => h.elim, fun h => h.elim⟩, fun _ => rfl⟩
  | TestForm.timestamp relation (some date) =>
      exact ⟨fun _ => ⟨fun h => h.elim, fun h => h.elim⟩, fun _ => rfl⟩
  | TestForm.field name fi ai body =>
      have hkeeps := flatNode_keepsIndices body
      constructor
      · intro h
        have hindex := congrArg MatchNode.u h
        rw [copyNode_u 0 ((TestForm.field name fi ai body).node_isLogical f a),
          copyNode_u 0 ((TestForm.field name fi ai body).node_isLogical 0 0),
          MatchIndex.idx.injEq] at hindex
        simp only [TestForm.node, hkeeps.fi_eq, hkeeps.ai_eq,
          fieldNode] at hindex
        refine ⟨fun hfield => ?_, fun harray => ?_⟩
        · cases fi with
          | none => exact hindex.1
          | some text => cases hfield
        · cases ai with
          | none => exact hindex.2
          | some text => cases harray
      · rintro ⟨hfield, harray⟩
        have hf : UInt8.ofInt (indexValue fi f) =
            UInt8.ofInt (indexValue fi 0) := by
          cases fi with
          | none => exact hfield trivial
          | some text => rfl
        have ha : UInt8.ofInt (indexValue ai a) =
            UInt8.ofInt (indexValue ai 0) := by
          cases ai with
          | none => exact harray trivial
          | some text => rfl
        simp only [TestForm.node, fieldNode, hf, ha]

theorem testNodes_getElem? (ts : List TestText) :
    forall (f a : Int) (i : Nat),
      (testNodes f a ts)[i]? = ts[i]?.map (fun t =>
        t.form.node (leftField (ts.take i) f) (leftArray (ts.take i) a)) := by
  induction ts with
  | nil =>
      intro f a i
      rfl
  | cons t rest ih =>
      intro f a i
      cases i with
      | zero => rfl
      | succ i =>
          simp only [testNodes, List.getElem?_cons_succ, ih]
          rfl

/-- The compiled tests of an expression, one by one. -/
theorem compiledExpression_getElem? (e : Expression TestText Level.ored)
    (i : Nat) :
    (compiledExpression e).tests[i]? = e.tests[i]?.map (fun t =>
      (t, copyNode 0 (t.form.node (leftField (e.tests.take i) 0)
        (leftArray (e.tests.take i) 0)))) := by
  have hfst := congrArg Expression.tests (map_fst_compiledExpression e)
  have hsnd : (compiledExpression e).tests.map Prod.snd =
      (testNodes 0 0 e.tests).map (copyNode 0) := by
    have hnodes := (annotate_testNodes e stacked_init.idle).1
    rw [compiledExpression, Expression.tests_map, List.map_map]
    have hmap := congrArg (List.map (copyNode 0)) hnodes
    rw [List.map_map] at hmap
    exact hmap
  rw [Expression.tests_map] at hfst
  have hfst' := congrArg (fun l => l[i]?) hfst
  have hsnd' := congrArg (fun l => l[i]?) hsnd
  simp only [List.getElem?_map, testNodes_getElem?, Option.map_map] at hfst' hsnd'
  cases hx : (compiledExpression e).tests[i]? with
  | none =>
      rw [hx] at hfst'
      rw [← hfst']
      rfl
  | some x =>
      rw [hx] at hfst' hsnd'
      rw [← hfst'] at hsnd' ⊢
      simp only [Option.map_some, Option.some.injEq, Function.comp] at hsnd' ⊢
      exact Prod.ext rfl hsnd'

/-!
## Tests on their own
-/

/-- A test as an expression. -/
def TestText.alone (t : TestText) : Expression TestText Level.ored :=
  Expression.anded (Expression.expr (Expression.test t))

/-- On its own a test has the indices that are written, or zero. -/
theorem TestText.compiled_alone (t : TestText) :
    exists mm, lsbCreateMessageMatcher t.source = some mm ∧
      mm.testNodes = [copyNode 0 (t.form.node 0 0)] := by
  have htext : t.source = [] ++ t.source ++ [] := by
    rw [List.nil_append, List.append_nil]
  have hspells : t.alone.Spells t.source := rfl
  rcases compiledExpression_reading htext gap_nil gap_nil hspells
    (Nat.zero_le 127) t.yyparse_source with ⟨mm, hcreate, hreading, _⟩
  refine ⟨mm, hcreate, ?_⟩
  rw [← hreading.nodes]
  change [copyNode 0 (lastNode (yyDone t.actions Context.init))] = _
  have htested : Tested t.form Context.init (yyDone t.actions Context.init) :=
    t.form.tested stacked_init.idle
  rw [htested.lastNode_eq]
  rfl

/-!
## Composition
-/

/-- The tests before leave zero in the place of every index that a test does
not have. -/
def Unaffected (before : List TestText) (t : TestText) : Prop :=
  (t.form.omitsField -> UInt8.ofInt (leftField before 0) = 0) ∧
    (t.form.omitsArray -> UInt8.ofInt (leftArray before 0) = 0)

/--
The node of a test in an accepted expression is the one it has on its own
exactly if the tests before it leave zero in the place of its missing indices.
-/
theorem lsbCreateMessageMatcher_test_iff {exp : List UInt8}
    (h : (yyparse exp).isSome = true) :
    exists mm e, lsbCreateMessageMatcher exp = some mm ∧ Reading exp mm e ∧
      forall i t mn, e.tests[i]? = some (t, mn) ->
        exists alone mn', lsbCreateMessageMatcher t.source = some alone ∧
          alone.testNodes = [mn'] ∧
          (mn = mn' <-> Unaffected ((e.tests.take i).map Prod.fst) t) := by
  rcases Option.isSome_iff_exists.mp h with ⟨actions, hactions⟩
  rcases yyparse_reads hactions with
    ⟨e, gap, s, gap', hexp, hgap, hgap', hs, heq, hoperators⟩
  rw [heq] at hactions
  rcases compiledExpression_reading hexp hgap hgap' hs hoperators hactions
    with ⟨mm, hcreate, hreading, _⟩
  refine ⟨mm, compiledExpression e, hcreate, hreading, fun i t mn hget => ?_⟩
  rcases t.compiled_alone with ⟨alone, halone, hnodes⟩
  refine ⟨alone, _, halone, hnodes, ?_⟩
  have hfst : (compiledExpression e).tests.map Prod.fst = e.tests := by
    rw [← Expression.tests_map, map_fst_compiledExpression]
  rw [compiledExpression_getElem?, Option.map_eq_some_iff] at hget
  rcases hget with ⟨t', _, hpair⟩
  cases hpair
  rw [List.map_take, hfst]
  exact copyNode_node_eq_iff t.form _ _

theorem lsbCreateMessageMatcher_test_iff_true :
    exists mm e, lsbCreateMessageMatcher (ascii "TRUE") = some mm ∧
      Reading (ascii "TRUE") mm e ∧
      forall i t mn, e.tests[i]? = some (t, mn) ->
        exists alone mn', lsbCreateMessageMatcher t.source = some alone ∧
          alone.testNodes = [mn'] ∧
          (mn = mn' <-> Unaffected ((e.tests.take i).map Prod.fst) t) :=
  lsbCreateMessageMatcher_test_iff (by decide)

/-!
## An index that an earlier test leaves behind
-/

/-- The comparison of a field with a string. -/
def stringForm (name : List UInt8) (fi ai : Option (List UInt8))
    (value : List UInt8) : TestForm :=
  TestForm.field name fi ai
    ⟨[Action.setOp MatchOperation.opEq, Action.setStringValue value],
      List.forall_mem_cons.mpr ⟨rfl, List.forall_mem_singleton.mpr trivial⟩⟩

/-- The test `Fields[b] == "y"`. -/
def plainText : TestText :=
  textOf (ascii "Fields[b] == \"y\"")
    (stringForm (ascii "b") none none (ascii "y")) (by decide)

/-- The expression of `Fields[a][3][4] == "x" && Fields[b] == "y"`. -/
def indexedTexts : Expression TestText Level.ored :=
  Expression.anded
    (Expression.and
      (Expression.expr (Expression.test
        (textOf (ascii "Fields[a][3][4] == \"x\"")
          (stringForm (ascii "a") (some (ascii "3")) (some (ascii "4"))
            (ascii "x")) (by decide))))
      (Expression.test plainText))

theorem yyparse_indexed :
    yyparse (ascii "Fields[a][3][4] == \"x\" && Fields[b] == \"y\"") =
      some (indexedTexts.actions ++ [Action.popAllOps]) := by
  decide

theorem spells_indexed : indexedTexts.Spells
    (ascii "Fields[a][3][4] == \"x\" && Fields[b] == \"y\"") :=
  ⟨ascii "Fields[a][3][4] == \"x\"", ascii " ", ascii " ",
    ascii "Fields[b] == \"y\"", by decide,
    gap_of_all (by decide), gap_of_all (by decide +kernel), rfl, rfl⟩

/-- The second test of the conjunction looks at the indices of the first. -/
theorem lsbCreateMessageMatcher_indexed :
    exists mm alone mn mn',
      lsbCreateMessageMatcher
        (ascii "Fields[a][3][4] == \"x\" && Fields[b] == \"y\"") = some mm ∧
      lsbCreateMessageMatcher (ascii "Fields[b] == \"y\"") = some alone ∧
      mm.testNodes[1]? = some mn ∧ alone.testNodes = [mn'] ∧
      mn.u = MatchIndex.idx 3 4 ∧ mn'.u = MatchIndex.idx 0 0 := by
  have htext :
      ascii "Fields[a][3][4] == \"x\" && Fields[b] == \"y\"" =
        [] ++ ascii "Fields[a][3][4] == \"x\" && Fields[b] == \"y\"" ++ [] := by
    rw [List.nil_append, List.append_nil]
  rcases compiledExpression_reading htext gap_nil gap_nil spells_indexed
    (by decide) yyparse_indexed with ⟨mm, hcreate, hreading, _⟩
  rcases plainText.compiled_alone with ⟨alone, halone, hnodes⟩
  have hnode : mm.testNodes[1]? =
      some (copyNode 0 (plainText.form.node 3 4)) := by
    rw [← hreading.nodes, List.getElem?_map, compiledExpression_getElem?]
    rfl
  exact ⟨mm, alone, _, _, hcreate, halone, hnode, hnodes, rfl, rfl⟩

end Matcher
end LuaSandbox
