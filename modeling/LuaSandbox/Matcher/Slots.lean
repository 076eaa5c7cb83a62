import LuaSandbox.Matcher.TestForm

/-!
# The semantic values of a test

What running the actions of a test puts out and what it leaves behind in the
two semantic values that the indices of a field are taken from.
-/

namespace LuaSandbox
namespace Matcher

open Foundation Util

variable {ctx : Context}

theorem yyDone_append (xs ys : List Action) (ctx : Context) :
    yyDone (xs ++ ys) ctx = yyDone ys (yyDone xs ctx) :=
  List.foldl_append

/-!
## Actions on the node
-/

/-- The node that actions on the node make of a node. -/
def flatNode (body : FlatActions) (mn : MatchNodeTmp) : MatchNodeTmp :=
  (yyDone body.1 { Context.init with mn := mn }).mn

theorem yyDone_flat_exists (body : List Action) :
    (forall a, a ∈ body -> a.Flat) ->
      exists f : MatchNodeTmp -> MatchNodeTmp, KeepsIndices f ∧
        forall ctx, yyDone body ctx = { ctx with mn := f ctx.mn } := by
  induction body with
  | nil =>
      intro _
      exact ⟨fun mn => mn, ⟨fun _ hmn => hmn, fun _ => rfl, fun _ => rfl⟩,
        fun _ => rfl⟩
  | cons a rest ih =>
      intro hall
      rcases Action.run_flat (hall a List.mem_cons_self) with ⟨f, hf, hrun⟩
      rcases ih (fun b hb => hall b (List.mem_cons_of_mem a hb)) with
        ⟨g, hg, hrest⟩
      refine ⟨fun mn => g (f mn), ⟨fun mn hmn => ?_, fun mn => ?_,
        fun mn => ?_⟩, fun ctx => ?_⟩
      · exact hg.isLogical_eq _ (hf.isLogical_eq mn hmn)
      · rw [hg.fi_eq, hf.fi_eq]
      · rw [hg.ai_eq, hf.ai_eq]
      · rw [yyDone, List.foldl_cons, hrun]
        exact hrest _

theorem yyDone_flat (body : FlatActions) (ctx : Context) :
    yyDone body.1 ctx = { ctx with mn := flatNode body ctx.mn } := by
  rcases yyDone_flat_exists body.1 body.2 with ⟨f, _, hrun⟩
  rw [flatNode, hrun, hrun]

theorem flatNode_keepsIndices (body : FlatActions) :
    KeepsIndices (flatNode body) := by
  rcases yyDone_flat_exists body.1 body.2 with ⟨f, hf, hrun⟩
  have heq : flatNode body = f := by
    funext mn
    rw [flatNode, hrun]
  rw [heq]
  exact hf

/-!
## Fields
-/

/-- The value of an index, or what is left in its place. -/
def indexValue (text : Option (List UInt8)) (left : Int) : Int :=
  (text.map atoi).getD left

/-- The node of a field with the values of its indices. -/
def fieldNode (name : List UInt8) (f a : Int) : MatchNodeTmp :=
  { setField initMatchNode name with fi := UInt8.ofInt f, ai := UInt8.ofInt a }

/-!
## Dates
-/

/-- The broken-down time of a date. -/
def Rfc3339.tm (date : Rfc3339) : Tm :=
  updateTime
    (updateDate Tm.zero (atoi date.year) (atoi date.month) (atoi date.day))
    (atoi date.hour) (atoi date.minute) (atoi date.second)

/-- The fraction of a second and the offset are added to the node. -/
def Rfc3339.addTo (date : Rfc3339) (mn : MatchNodeTmp) : MatchNodeTmp :=
  let mn :=
    match date.secondFrac with
    | none => mn
    | some text => addToNumber mn (strtod text)
  match date.offset with
  | none => updateOffset mn false 0 0
  | some (hour, minute, text) =>
      updateOffset mn (text.head? == some 0x2d) (atoi hour) (atoi minute)

/-- What a date leaves in the first two semantic values. -/
def Rfc3339.left (date : Rfc3339) : Int × Int :=
  match date.offset with
  | none => (atoi date.hour, atoi date.minute)
  | some (hour, minute, _) => (atoi hour, atoi minute)

/-!
## Forms
-/

namespace TestForm

/-- The node of a test, given what is left in the semantic values. -/
def node (f a : Int) : TestForm -> MatchNodeTmp
  | header body => flatNode body initMatchNode
  | field name fi ai body =>
      flatNode body (fieldNode name (indexValue fi f) (indexValue ai a))
  | timestamp relation none =>
      (Matcher.setTimestamp
        { Context.init with mn := flatNode relation initMatchNode }).mn
  | timestamp relation (some date) =>
      (Matcher.setTimestamp
        { Context.init with
          mn := date.addTo (flatNode relation initMatchNode),
          tms := date.tm }).mn

/-- The test stores in the semantic value of the field index. -/
def storesField : TestForm -> Option Int
  | header _ => none
  | field _ fi _ _ => fi.map atoi
  | timestamp _ date => date.map (fun d => d.left.1)

/-- The test stores in the semantic value of the array index. -/
def storesArray : TestForm -> Option Int
  | header _ => none
  | field _ _ ai _ => ai.map atoi
  | timestamp _ date => date.map (fun d => d.left.2)

/-- The test looks at the semantic value of a field index that is not there. -/
def omitsField : TestForm -> Prop
  | field _ none _ _ => True
  | _ => False

/-- The test looks at the semantic value of an array index that is not
there. -/
def omitsArray : TestForm -> Prop
  | field _ _ none _ => True
  | _ => False

end TestForm

/-- Nothing is under construction. -/
structure Idle (ctx : Context) : Prop where
  mn_eq : ctx.mn = initMatchNode
  tms_eq : ctx.tms = Tm.zero

/-- What running a test does to the context. -/
structure Tested (form : TestForm) (ctx ctx' : Context) : Prop where
  out_eq : ctx'.out =
    ctx.out ++ [form.node (ctx.vals ctx.val) (ctx.vals (ctx.val + 1))]
  ops_eq : ctx'.ops = ctx.ops
  idle : Idle ctx'
  val_eq : ctx'.val = ctx.val
  field_eq : ctx'.vals ctx.val = form.storesField.getD (ctx.vals ctx.val)
  array_eq : ctx'.vals (ctx.val + 1) =
    form.storesArray.getD (ctx.vals (ctx.val + 1))

theorem tested_header (body : FlatActions) (h : Idle ctx) :
    Tested (TestForm.header body) ctx
      (yyDone (TestForm.header body).actions ctx) := by
  have hrun : yyDone (TestForm.header body).actions ctx =
      Action.pushOutput.run { ctx with mn := flatNode body ctx.mn } := by
    rw [TestForm.actions, yyDone_append, TestForm.body, yyDone_flat]
    rfl
  rw [hrun, h.mn_eq]
  exact ⟨rfl, rfl, ⟨rfl, h.tms_eq⟩, rfl, rfl, rfl⟩

theorem yyDone_fieldActions (name : List UInt8)
    (fi ai : Option (List UInt8)) (h : Idle ctx) :
    let ctx' := yyDone (fieldActions name fi ai) ctx
    ctx'.mn = fieldNode name (indexValue fi (ctx.vals ctx.val))
        (indexValue ai (ctx.vals (ctx.val + 1))) ∧
      ctx'.out = ctx.out ∧ ctx'.ops = ctx.ops ∧ ctx'.tms = Tm.zero ∧
      ctx'.val = ctx.val ∧
      ctx'.vals ctx.val = (fi.map atoi).getD (ctx.vals ctx.val) ∧
      ctx'.vals (ctx.val + 1) = (ai.map atoi).getD (ctx.vals (ctx.val + 1)) := by
  cases fi <;> cases ai <;>
    simp [yyDone, fieldActions, indexActions, Action.run, Context.slot,
      h.mn_eq, h.tms_eq, fieldNode, indexValue]

theorem tested_field (name : List UInt8) (fi ai : Option (List UInt8))
    (body : FlatActions) (h : Idle ctx) :
    Tested (TestForm.field name fi ai body) ctx
      (yyDone (TestForm.field name fi ai body).actions ctx) := by
  rcases yyDone_fieldActions name fi ai h with
    ⟨hmn, hout, hops, htms, hval, hfield, harray⟩
  rw [TestForm.actions, TestForm.body, yyDone_append, yyDone_append,
    yyDone_flat]
  refine ⟨?_, hops, ⟨rfl, htms⟩, hval, hfield, harray⟩
  change (yyDone (fieldActions name fi ai) ctx).out ++ [flatNode body _] = _
  rw [hout, hmn]
  rfl

theorem yyDone_dateActions (date : Rfc3339) (ctx : Context)
    (htms : ctx.tms = Tm.zero) :
    let ctx' := yyDone date.actions ctx
    ctx'.mn = date.addTo ctx.mn ∧ ctx'.tms = date.tm ∧ ctx'.out = ctx.out ∧
      ctx'.ops = ctx.ops ∧ ctx'.val = ctx.val ∧
      ctx'.vals ctx.val = date.left.1 ∧
      ctx'.vals (ctx.val + 1) = date.left.2 := by
  rcases date with ⟨year, month, day, hour, minute, second, frac, offset⟩
  cases frac <;> rcases offset with _ | ⟨offHour, offMinute, text⟩ <;>
    simp [yyDone, Rfc3339.actions, secondFracActions, offsetActions,
      Action.run, Context.slot, htms, Rfc3339.addTo, Rfc3339.tm, Rfc3339.left]

theorem tested_timestamp (relation : FlatActions) (date : Option Rfc3339)
    (h : Idle ctx) :
    Tested (TestForm.timestamp relation date) ctx
      (yyDone (TestForm.timestamp relation date).actions ctx) := by
  rw [TestForm.actions, TestForm.body, yyDone_append, yyDone_append,
    yyDone_append, yyDone_flat, h.mn_eq]
  cases date with
  | none =>
      refine ⟨?_, rfl, ⟨rfl, rfl⟩, rfl, rfl, rfl⟩
      change ctx.out ++ [(Matcher.setTimestamp
        { ctx with mn := flatNode relation initMatchNode }).mn] = _
      simp only [TestForm.node, Matcher.setTimestamp, h.tms_eq]
      rfl
  | some date =>
      have hdate := yyDone_dateActions date
        { ctx with mn := flatNode relation initMatchNode } h.tms_eq
      change Tested _ ctx (Action.pushOutput.run (Matcher.setTimestamp
        (yyDone date.actions
          { ctx with mn := flatNode relation initMatchNode })))
      generalize yyDone date.actions
        { ctx with mn := flatNode relation initMatchNode } = ctx' at hdate ⊢
      rcases hdate with ⟨hmn, htms, hout, hops, hval, hfield, harray⟩
      refine ⟨?_, hops, ⟨rfl, rfl⟩, hval, hfield, harray⟩
      simp only [Action.run, TestForm.node, Matcher.setTimestamp, hmn, htms,
        hout]

/-- Every test puts out its node, and leaves its indices behind. -/
theorem TestForm.tested (form : TestForm) (h : Idle ctx) :
    Tested form ctx (yyDone form.actions ctx) :=
  match form with
  | header body => tested_header body h
  | field name fi ai body => tested_field name fi ai body h
  | timestamp relation date => tested_timestamp relation date h

/-- No test makes an operator. -/
theorem TestForm.node_isLogical (form : TestForm) (f a : Int) :
    (form.node f a).op.isLogical = false := by
  have hinit : initMatchNode.op.isLogical = false := rfl
  match form with
  | header body => exact (flatNode_keepsIndices body).isLogical_eq _ hinit
  | field name fi ai body => exact (flatNode_keepsIndices body).isLogical_eq _ hinit
  | timestamp relation none =>
      have hnode := (flatNode_keepsIndices relation).isLogical_eq _ hinit
      simp only [node, Matcher.setTimestamp]
      split <;> exact hnode
  | timestamp relation (some date) =>
      have hnode : (date.addTo (flatNode relation initMatchNode)).op.isLogical =
          false := by
        have hflat := (flatNode_keepsIndices relation).isLogical_eq _ hinit
        simp only [Rfc3339.addTo]
        split <;> split <;> exact hflat
      simp only [node, Matcher.setTimestamp]
      split <;> exact hnode

end Matcher
end LuaSandbox
