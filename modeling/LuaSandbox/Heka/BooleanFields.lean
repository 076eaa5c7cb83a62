import LuaSandbox.Heka.SameMessage
import LuaSandbox.Matcher.FieldReference

/-!
# Boolean fields

The truth value of a boolean field value: what the matcher tests, what
`read_message` returns and what `decode_message` puts into the table.
-/

namespace LuaSandbox
namespace Heka

open Foundation
open Util
open Matcher

/-!
## Words as truth values
-/

/-- The word of a boolean at an array index. -/
def HoldsBoolean (mem : Memory) (f : HekaField) (ai w : Nat) : Prop :=
  exists ws, SliceHolds mem f.value (WireValues.bools ws) ∧
    ws[ai]? = some w

theorem HoldsBoolean.word_lt {mem : Memory} {f : HekaField} {ai w : Nat}
    (h : HoldsBoolean mem f ai w) : w < 2 ^ 64 := by
  rcases h with ⟨ws, hslice, hw⟩
  generalize f.value = v at hslice
  cases hslice with
  | bools hle hws => exact hws.word_lt (List.mem_of_getElem? hw)

/-- The reader takes the whole word. -/
theorem HoldsBoolean.read {mem : Memory} {f : HekaField} {ai w : Nat}
    (h : HoldsBoolean mem f ai w) (htype : f.valueType = lsbPbBool) :
    readFieldValue mem f ai =
      some (ReadValue.bool (Double.ofInt (toLongLong w))) := by
  rcases h with ⟨ws, hslice, hw⟩
  unfold readFieldValue
  rw [htype]
  generalize f.value = v at hslice
  cases hslice with
  | bools hle hws =>
      rename_i p e
      have hloop : readIntegerValueLoop mem e ai (e - p) p 0 = _ :=
        readIntegerValueLoop_eq hws (Nat.le_refl _) (Nat.zero_le ai)
      rw [Nat.sub_zero, hw] at hloop
      dsimp only
      rw [if_neg (by decide), if_neg (by decide), if_pos rfl,
        Nat.add_sub_cancel' hle]
      unfold readIntegerValue
      rw [hloop]
      rfl

/-- A boolean in a table comes from a word. -/
theorem booleanValue_of_table {mem : Memory} {f : HekaField}
    {tf : TableField} {ai : Nat} {b : Bool}
    (h : ValuesAgree mem (fun _ _ => True) f tf)
    (hb : tf.value[ai]? = some (TableValue.boolean b)) :
    exists w, HoldsBoolean mem f ai w ∧
      b = decide (toInt (toLongLong w) ≠ 0) := by
  cases h with
  | none _ hempty =>
      rw [hempty] at hb
      cases hb
  | @some vs _ hslice hvalues =>
      rw [hvalues] at hb
      cases vs with
      | strings ss =>
          change (ss.map _)[ai]? = _ at hb
          rw [List.getElem?_map] at hb
          rcases Option.map_eq_some_iff.mp hb with ⟨s, _, hs⟩
          cases hs
      | integers ws =>
          change (ws.map _)[ai]? = _ at hb
          rw [List.getElem?_map] at hb
          rcases Option.map_eq_some_iff.mp hb with ⟨w, _, hw⟩
          cases hw
      | doubles xs =>
          change (xs.map _)[ai]? = _ at hb
          rw [List.getElem?_map] at hb
          rcases Option.map_eq_some_iff.mp hb with ⟨x, _, hx⟩
          cases hx
      | bools ws =>
          change (ws.map _)[ai]? = _ at hb
          rw [List.getElem?_map] at hb
          rcases Option.map_eq_some_iff.mp hb with ⟨w, hw, hvalue⟩
          cases hvalue
          exact ⟨w, ⟨ws, hslice, hw⟩, rfl⟩

/-!
## Tests
-/

/-- The test `Fields[name][fi][ai] == constant`. -/
structure TestsBoolean (mn : MatchNode) (name : List UInt8) (fi ai : Nat)
    (constant : Bool) : Prop where
  addresses : AddressesField mn name fi ai
  op_eq : mn.op = MatchOperation.opEq
  valType_eq : mn.valType =
    if constant then MatchType.typeTrue else MatchType.typeFalse

theorem TestsBoolean.evalNode_eq {mem : Memory} {m : HekaMessage}
    {mn : MatchNode} {name : List UInt8} {fi ai : Nat} {constant : Bool}
    {d : Double} (h : TestsBoolean mn name fi ai constant)
    (hread : lsbReadHekaField mem m name fi ai = some (ReadValue.bool d)) :
    evalNode mem mn m =
      d.value.eq (Double.Value.fin (if constant then 1 else 0 : Int)) := by
  have hreads := h.addresses.reads_eq mem m
  rw [hread] at hreads
  unfold MatchNode.readField at hreads
  rw [h.addresses.u_eq] at hreads
  dsimp only at hreads
  have hfield : evalNode mem mn m = fieldTest mem mn m := by
    unfold evalNode
    rw [h.op_eq, h.addresses.fieldId_eq]
    rfl
  rw [hfield]
  unfold fieldTest
  rw [h.addresses.u_eq]
  dsimp only
  rw [hreads, h.valType_eq]
  cases constant with
  | false =>
      change booleanTest mn 0 d = _
      unfold booleanTest
      rw [if_pos h.op_eq]
      rfl
  | true =>
      change booleanTest mn 1 d = _
      unfold booleanTest
      rw [if_pos h.op_eq]
      rfl

/-- The tests and the reader see the truth value `b`. -/
structure TruthAgrees (mem : Memory) (m : HekaMessage) (name : List UInt8)
    (fi ai : Nat) (mnTrue mnFalse : MatchNode) (b : Bool) : Prop where
  true_eq : evalNode mem mnTrue m = b
  false_eq : evalNode mem mnFalse m = !b
  read_eq : hekaReadMessage mem (some m) (fieldReference name) fi ai =
    Except.ok (some (TableValue.boolean b))

def booleanField : HekaField :=
  ⟨⟨some 24, 1⟩, ConstString.init, ⟨some 28, 1⟩, lsbPbBool⟩

def booleanTableField (b : Bool) : TableField :=
  ⟨some (ascii "a"), some (Double.ofInt lsbPbBool), none,
    [TableValue.boolean b]⟩

def booleanTable (b : Bool) : MessageTable :=
  { MessageTable.empty with
    uuid := some (List.replicate 16 0)
    timestamp := some (Double.ofInt 0)
    fields := [booleanTableField b] }

/-- The node of `Fields[a] == constant`. -/
def booleanNode (constant : Bool) : MatchNode where
  op := MatchOperation.opEq
  units := 2
  varLen := 1
  valLen := 0
  fieldId := 10
  valType := if constant then MatchType.typeTrue else MatchType.typeFalse
  valMod := MatchPatternMod.patternModNone
  u := MatchIndex.idx 0 0
  var := ascii "a"
  val := MatchValue.d 0

theorem testsBoolean_node (constant : Bool) :
    TestsBoolean (booleanNode constant) (ascii "a") 0 0 constant :=
  ⟨⟨rfl, rfl, rfl, rfl, fun _ _ => rfl⟩, rfl, rfl⟩

end Heka
end LuaSandbox
