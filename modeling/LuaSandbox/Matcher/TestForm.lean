import LuaSandbox.Foundation.Peg.Invariants
import LuaSandbox.Matcher.Grammar

/-!
# The forms of tests

The actions that the parser records for a test: most of them build the node,
and only the indices of a field and the numbers of a date pass through the
semantic values.
-/

namespace LuaSandbox
namespace Matcher

open Foundation Util

/-!
## Actions on the node
-/

/-- An action that only changes the node under construction, and does not make
an operator of it. -/
def Action.Flat : Action -> Prop
  | setOp op => op.isLogical = false
  | setValType _ => True
  | setId _ => True
  | setPatternModEsc => True
  | setStringValue _ => True
  | setMatchMod => True
  | setNumericValue _ => True
  | setField _ => True
  | _ => False

/-- A list of actions on the node. -/
abbrev FlatActions := { actions : List Action // forall a, a ∈ actions -> a.Flat }

/-- A change of the node that makes no operator of it and leaves the indices
alone. -/
structure KeepsIndices (f : MatchNodeTmp -> MatchNodeTmp) : Prop where
  isLogical_eq : forall mn, mn.op.isLogical = false ->
    (f mn).op.isLogical = false
  fi_eq : forall mn, (f mn).fi = mn.fi
  ai_eq : forall mn, (f mn).ai = mn.ai

theorem setMatchMod_keepsIndices : KeepsIndices Matcher.setMatchMod := by
  constructor
  · intro mn hmn
    unfold Matcher.setMatchMod
    split <;> exact hmn
  · intro mn
    unfold Matcher.setMatchMod
    split <;> rfl
  · intro mn
    unfold Matcher.setMatchMod
    split <;> rfl

/-- An action on the node is a function of the node. -/
theorem Action.run_flat {a : Action} (h : a.Flat) :
    exists f : MatchNodeTmp -> MatchNodeTmp, KeepsIndices f ∧
      forall ctx, a.run ctx = { ctx with mn := f ctx.mn } := by
  cases a with
  | setOp op =>
      exact ⟨fun mn => { mn with op := op },
        ⟨fun _ _ => h, fun _ => rfl, fun _ => rfl⟩, fun _ => rfl⟩
  | setValType valType =>
      exact ⟨fun mn => { mn with valType := valType },
        ⟨fun _ hmn => hmn, fun _ => rfl, fun _ => rfl⟩, fun _ => rfl⟩
  | setId id =>
      exact ⟨fun mn => { mn with id := id },
        ⟨fun _ hmn => hmn, fun _ => rfl, fun _ => rfl⟩, fun _ => rfl⟩
  | setPatternModEsc =>
      exact ⟨fun mn => { mn with valMod := MatchPatternMod.patternModEsc },
        ⟨fun _ hmn => hmn, fun _ => rfl, fun _ => rfl⟩, fun _ => rfl⟩
  | setStringValue s =>
      exact ⟨fun mn => Matcher.setStringValue mn s,
        ⟨fun _ hmn => hmn, fun _ => rfl, fun _ => rfl⟩, fun _ => rfl⟩
  | setMatchMod =>
      exact ⟨Matcher.setMatchMod, setMatchMod_keepsIndices, fun _ => rfl⟩
  | setNumericValue s =>
      exact ⟨fun mn => Matcher.setNumericValue mn s,
        ⟨fun _ hmn => hmn, fun _ => rfl, fun _ => rfl⟩, fun _ => rfl⟩
  | setField name =>
      exact ⟨fun mn => Matcher.setField mn name,
        ⟨fun _ hmn => hmn, fun _ => rfl, fun _ => rfl⟩, fun _ => rfl⟩
  | _ => cases h

/-!
## Forms
-/

/-- The numbers of a date and time, as they are written; the offset is zero or
has an hour, a minute and the text that is looked at for its sign. -/
structure Rfc3339 where
  year : List UInt8
  month : List UInt8
  day : List UInt8
  hour : List UInt8
  minute : List UInt8
  second : List UInt8
  secondFrac : Option (List UInt8)
  offset : Option (List UInt8 × List UInt8 × List UInt8)

/-- The actions of the fraction of a second. -/
def secondFracActions : Option (List UInt8) -> List Action
  | none => []
  | some text => [Action.addSecondFrac text]

/-- The actions of the time offset. -/
def offsetActions : Option (List UInt8 × List UInt8 × List UInt8) ->
    List Action
  | none => [Action.updateOffsetZ]
  | some (hour, minute, text) =>
      [Action.atoi hour, Action.yySet 2, Action.atoi minute, Action.yySet 1,
        Action.updateOffset text]

def Rfc3339.actions (date : Rfc3339) : List Action :=
  [Action.yyPush 3, Action.atoi date.year, Action.yySet 3,
    Action.atoi date.month, Action.yySet 2, Action.atoi date.day,
    Action.yySet 1, Action.updateDate, Action.yyPop 3, Action.yyPush 3,
    Action.atoi date.hour, Action.yySet 3, Action.atoi date.minute,
    Action.yySet 2, Action.atoi date.second, Action.yySet 1] ++
  secondFracActions date.secondFrac ++
  [Action.updateTime, Action.yyPop 3, Action.yyPush 2] ++
  offsetActions date.offset ++ [Action.yyPop 2]

def dateActions : Option Rfc3339 -> List Action
  | none => []
  | some date => date.actions

/-- The actions of an index, which is kept in a semantic value. -/
def indexActions (count : Nat) : Option (List UInt8) -> List Action
  | none => []
  | some text => [Action.atoi text, Action.yySet count]

/-- The actions of a field with its indices. -/
def fieldActions (name : List UInt8) (fi ai : Option (List UInt8)) :
    List Action :=
  [Action.yyPush 2, Action.setField name] ++ indexActions 2 fi ++
    [Action.setFi] ++ indexActions 1 ai ++ [Action.setAi, Action.yyPop 2]

/-- What a test consists of. -/
inductive TestForm where
  | header (body : FlatActions)
  | field (name : List UInt8) (fi ai : Option (List UInt8))
      (body : FlatActions)
  | timestamp (relation : FlatActions) (date : Option Rfc3339)

/-- The actions recorded for a test before its output. -/
def TestForm.body : TestForm -> List Action
  | header body => body.1
  | field name fi ai body => fieldActions name fi ai ++ body.1
  | timestamp relation date =>
      relation.1 ++ dateActions date ++ [Action.setTimestamp]

def TestForm.actions (form : TestForm) : List Action :=
  form.body ++ [Action.pushOutput]

/-!
## What the rules record
-/

open Peg

variable {E : Rule -> List Action -> Prop} {ts : List Action}

/-- An expression that records nothing. -/
theorem emits_silent {p : Grammar} (h : Emits E p ts)
    (hp : Actions (fun _ => False) p) : ts = [] :=
  List.eq_nil_iff_forall_not_mem.mpr (emits_forall p hp h)

theorem emits_silent_seq {p q : Grammar} (h : Emits E (Peg.seq p q) ts)
    (hp : Actions (fun _ => False) p) : Emits E q ts := by
  rcases h with ⟨ts1, ts2, hts1, hts2, rfl⟩
  rw [emits_silent hts1 hp]
  exact hts2

theorem emits_act {a : Action} (h : Emits E (Grammar.act a) ts) :
    ts = [a] := by
  rcases h with ⟨_, rfl⟩
  rfl

theorem emits_act_seq {a : Action} {q : Grammar}
    (h : Emits E (Peg.seq (Grammar.act a) q) ts) :
    exists rest, Emits E q rest ∧ ts = a :: rest := by
  rcases h with ⟨ts1, ts2, ⟨_, rfl⟩, hts2, rfl⟩
  exact ⟨ts2, hts2, rfl⟩

/-- A number becomes the semantic value. -/
theorem emits_numeral {p : Grammar} (h : Emits E (Grammar.numeral p) ts)
    (hp : Actions (fun _ => False) p) : exists text, ts = [Action.atoi text] :=
  emits_silent_seq h hp

theorem emits_numeral_seq {p q : Grammar}
    (h : Emits E (Peg.seq (Grammar.numeral p) q) ts)
    (hp : Actions (fun _ => False) p) :
    exists text rest, Emits E q rest ∧ ts = Action.atoi text :: rest := by
  rcases h with ⟨ts1, ts2, hts1, hts2, rfl⟩
  rcases emits_numeral hts1 hp with ⟨text, rfl⟩
  exact ⟨text, ts2, hts2, rfl⟩

theorem emits_flat {p : Grammar} (h : Emits E p ts)
    (hp : Actions Action.Flat p) : exists body : FlatActions, ts = body.1 :=
  ⟨⟨ts, emits_forall p hp h⟩, rfl⟩

theorem zeroTo255_silent : Actions (fun _ => False) Grammar.zeroTo255 := by
  repeat' apply And.intro
  all_goals trivial

theorem emits_opt_index {count : Nat}
    (h : Emits E (Peg.opt
      (Grammar.seqs Grammar.index [Grammar.act (Action.yySet count)])) ts) :
    exists text, ts = indexActions count text := by
  rcases h with ⟨ts1, ts2, hindex, hset, rfl⟩ | rfl
  · have hcapture := emits_silent_seq hindex trivial
    have hclose := emits_silent_seq hcapture zeroTo255_silent
    rcases emits_silent_seq hclose trivial with ⟨text, rfl⟩
    rw [emits_act hset]
    exact ⟨some text, rfl⟩
  · exact ⟨none, rfl⟩

theorem emits_fields (h : Emits E Grammar.fields ts) :
    exists name fi ai, ts = fieldActions name fi ai := by
  rcases emits_act_seq h with ⟨ts1, h1, rfl⟩
  have h2 := emits_silent_seq h1 trivial
  have h3 := emits_silent_seq h2 trivial
  have h4 := emits_silent_seq h3 trivial
  rcases h4 with ⟨_, ts5, ⟨name, rfl⟩, h5, rfl⟩
  rcases h5 with ⟨ts6, ts7, hfi, h7, rfl⟩
  rcases emits_opt_index hfi with ⟨fi, rfl⟩
  rcases emits_act_seq h7 with ⟨ts8, h8, rfl⟩
  rcases h8 with ⟨ts9, ts10, hai, h10, rfl⟩
  rcases emits_opt_index hai with ⟨ai, rfl⟩
  rcases emits_act_seq h10 with ⟨ts11, h11, rfl⟩
  rw [emits_act h11]
  exact ⟨name, fi, ai, by simp [fieldActions]⟩

theorem emits_secondFrac
    (h : Emits E (Peg.opt Grammar.secondFrac) ts) :
    exists text, ts = secondFracActions text := by
  rcases h with h | rfl
  · rcases emits_silent_seq h ⟨trivial, trivial, trivial⟩ with ⟨text, rfl⟩
    exact ⟨some text, rfl⟩
  · exact ⟨none, rfl⟩

theorem emits_fulldate (h : Emits E Grammar.fulldate ts) :
    exists year month day, ts = [Action.yyPush 3, Action.atoi year,
      Action.yySet 3, Action.atoi month, Action.yySet 2, Action.atoi day,
      Action.yySet 1, Action.updateDate, Action.yyPop 3] := by
  rcases emits_act_seq h with ⟨ts1, h1, rfl⟩
  rcases emits_numeral_seq h1 ⟨trivial, trivial, trivial, trivial⟩ with
    ⟨year, ts2, h2, rfl⟩
  rcases emits_act_seq h2 with ⟨ts3, h3, rfl⟩
  rcases emits_numeral_seq (emits_silent_seq h3 trivial)
    ⟨⟨trivial, trivial⟩, trivial, trivial⟩ with ⟨month, ts4, h4, rfl⟩
  rcases emits_act_seq h4 with ⟨ts5, h5, rfl⟩
  rcases emits_numeral_seq (emits_silent_seq h5 trivial)
    ⟨⟨trivial, trivial⟩, ⟨trivial, trivial⟩, trivial, trivial⟩ with
    ⟨day, ts6, h6, rfl⟩
  rcases emits_act_seq h6 with ⟨ts7, h7, rfl⟩
  rcases emits_act_seq h7 with ⟨ts8, h8, rfl⟩
  rw [emits_act h8]
  exact ⟨year, month, day, rfl⟩

theorem emits_partialtime (h : Emits E Grammar.partialtime ts) :
    exists hour minute second frac, ts = [Action.yyPush 3, Action.atoi hour,
      Action.yySet 3, Action.atoi minute, Action.yySet 2, Action.atoi second,
      Action.yySet 1] ++ secondFracActions frac ++
        [Action.updateTime, Action.yyPop 3] := by
  rcases emits_act_seq h with ⟨ts1, h1, rfl⟩
  rcases emits_numeral_seq h1 ⟨⟨trivial, trivial⟩, trivial, trivial⟩ with
    ⟨hour, ts2, h2, rfl⟩
  rcases emits_act_seq h2 with ⟨ts3, h3, rfl⟩
  rcases emits_numeral_seq (emits_silent_seq h3 trivial)
    ⟨trivial, trivial⟩ with ⟨minute, ts4, h4, rfl⟩
  rcases emits_act_seq h4 with ⟨ts5, h5, rfl⟩
  rcases emits_numeral_seq (emits_silent_seq h5 trivial)
    ⟨⟨trivial, trivial⟩, trivial⟩ with ⟨second, ts6, h6, rfl⟩
  rcases emits_act_seq h6 with ⟨ts7, h7, rfl⟩
  rcases h7 with ⟨ts8, ts9, hfrac, h9, rfl⟩
  rcases emits_secondFrac hfrac with ⟨frac, rfl⟩
  rcases emits_act_seq h9 with ⟨ts10, h10, rfl⟩
  rw [emits_act h10]
  exact ⟨hour, minute, second, frac, by simp⟩

theorem emits_timeoffset (h : Emits E Grammar.timeoffset ts) :
    exists offset,
      ts = [Action.yyPush 2] ++ offsetActions offset ++ [Action.yyPop 2] := by
  rcases emits_act_seq h with ⟨ts1, h1, rfl⟩
  rcases h1 with ⟨ts2, ts3, hoffset, h3, rfl⟩
  rw [emits_act h3]
  rcases hoffset with hzulu | hoffset
  · rw [emits_act (emits_silent_seq hzulu trivial)]
    exact ⟨none, rfl⟩
  · rcases emits_numeral_seq (emits_silent_seq hoffset trivial)
      ⟨⟨trivial, trivial⟩, trivial, trivial⟩ with ⟨hour, ts4, h4, rfl⟩
    rcases emits_act_seq h4 with ⟨ts5, h5, rfl⟩
    rcases emits_numeral_seq h5 ⟨trivial, trivial⟩ with
      ⟨minute, ts6, h6, rfl⟩
    rcases emits_act_seq h6 with ⟨ts7, ⟨text, rfl⟩, rfl⟩
    exact ⟨some (hour, minute, text), rfl⟩

theorem emits_rfc3339 (h : Emits E Grammar.rfc3339 ts) :
    exists date : Rfc3339, ts = date.actions := by
  rcases h with ⟨ts1, ts2, hdate, h2, rfl⟩
  rcases emits_fulldate hdate with ⟨year, month, day, rfl⟩
  rcases emits_silent_seq h2 trivial with ⟨ts3, ts4, htime, hoffset, rfl⟩
  rcases emits_partialtime htime with ⟨hour, minute, second, frac, rfl⟩
  rcases emits_timeoffset hoffset with ⟨offset, rfl⟩
  exact ⟨⟨year, month, day, hour, minute, second, frac, offset⟩,
    by simp [Rfc3339.actions]⟩

theorem emits_tsQuoted (h : Emits E Grammar.tsQuoted ts) :
    exists date : Rfc3339, ts = date.actions := by
  rcases h with h | h
  · rcases emits_silent_seq h trivial with ⟨ts1, ts2, hdate, hquote, rfl⟩
    rcases emits_rfc3339 hdate with ⟨date, rfl⟩
    exact ⟨date, by rw [emits_silent hquote trivial, List.append_nil]⟩
  · rcases emits_silent_seq h trivial with ⟨ts1, ts2, hdate, hquote, rfl⟩
    rcases emits_rfc3339 hdate with ⟨date, rfl⟩
    exact ⟨date, by rw [emits_silent hquote trivial, List.append_nil]⟩

theorem relational_flat : Actions Action.Flat Grammar.relational := by
  repeat' apply And.intro
  all_goals first
    | trivial
    | exact fun _ => rfl

theorem numericValue_flat : Actions Action.Flat Grammar.numericValue := by
  repeat' apply And.intro
  all_goals first
    | trivial
    | exact fun _ => trivial

theorem emits_timestamp (h : Emits E Grammar.timestamp ts) :
    exists relation date, ts = (TestForm.timestamp relation date).body := by
  have h1 := emits_silent_seq (emits_silent_seq h trivial) trivial
  rcases h1 with ⟨ts1, ts2, hrelation, h2, rfl⟩
  rcases emits_silent_seq h2 trivial with ⟨ts3, ts4, hmoment, h4, rfl⟩
  rw [emits_act h4]
  rcases hmoment with hnumeric | hquoted
  · have hflat : forall a, a ∈ ts1 ++ ts3 -> a.Flat := by
      intro a ha
      rcases List.mem_append.mp ha with ha | ha
      · exact emits_forall _ relational_flat hrelation a ha
      · exact emits_forall _ numericValue_flat hnumeric a ha
    exact ⟨⟨ts1 ++ ts3, hflat⟩, none, by simp [TestForm.body, dateActions]⟩
  · rcases emits_flat hrelation relational_flat with ⟨relation, rfl⟩
    rcases emits_tsQuoted hquoted with ⟨date, rfl⟩
    exact ⟨relation, some date, by simp [TestForm.body, dateActions]⟩

/-- The tests of headers and constants only build the node. -/
theorem headers_flat : Actions Action.Flat
    (Grammar.alts Grammar.uuid [Grammar.optionalStringHeaders,
      Grammar.severity, Grammar.pid, Grammar.booleanTest]) := by
  repeat' apply And.intro
  all_goals first
    | trivial
    | exact fun _ => trivial
    | exact fun _ => rfl

/-- What follows the field of a field test. -/
theorem fieldValue_flat : Actions Action.Flat
    (Grammar.alts
      (Grammar.seqs Grammar.relational [Grammar.sp,
        Grammar.alts Grammar.stringValue [Grammar.numericValue]])
      [Grammar.stringMatch,
      Grammar.seqs (Grammar.alts Grammar.opEq [Grammar.opNe])
        [Grammar.sp, Grammar.alts Grammar.boolean [Grammar.nilRule]]]) := by
  repeat' apply And.intro
  all_goals first
    | trivial
    | exact fun _ => trivial
    | exact fun _ => rfl

theorem emits_fieldTest (h : Emits E Grammar.fieldTest ts) :
    exists name fi ai body, ts = (TestForm.field name fi ai body).body := by
  rcases h with ⟨ts1, ts2, hfields, hrest, rfl⟩
  rcases emits_fields hfields with ⟨name, fi, ai, rfl⟩
  rcases emits_flat (emits_silent_seq hrest trivial) fieldValue_flat with
    ⟨body, rfl⟩
  exact ⟨name, fi, ai, body, rfl⟩

/-- Every test has one of the forms. -/
theorem emits_test (h : Emits E Grammar.test ts) :
    exists form : TestForm, ts = form.actions := by
  rcases h with ⟨ts1, ts2, hbody, houtput, rfl⟩
  rcases emits_act_seq houtput with ⟨ts3, hsp, rfl⟩
  rw [emits_silent hsp trivial]
  suffices hform : exists form : TestForm, ts1 = form.body by
    rcases hform with ⟨form, rfl⟩
    exact ⟨form, rfl⟩
  rcases headers_flat with ⟨huuid, hheaders, hseverity, hpid, hboolean⟩
  have hflat : forall {p : Grammar}, Actions Action.Flat p ->
      Emits E p ts1 -> exists form : TestForm, ts1 = form.body := by
    intro p hp hemits
    rcases emits_flat hemits hp with ⟨body, rfl⟩
    exact ⟨TestForm.header body, rfl⟩
  rcases hbody with h | h | h | h | h | h | h
  · exact hflat huuid h
  · rcases emits_timestamp h with ⟨relation, date, rfl⟩
    exact ⟨TestForm.timestamp relation date, rfl⟩
  · exact hflat hheaders h
  · exact hflat hseverity h
  · exact hflat hpid h
  · rcases emits_fieldTest h with ⟨name, fi, ai, body, rfl⟩
    exact ⟨TestForm.field name fi ai body, rfl⟩
  · exact hflat hboolean h

end Matcher
end LuaSandbox
