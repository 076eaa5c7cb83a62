import LuaSandbox.Foundation.Peg.Window
import LuaSandbox.Matcher.Reading

/-!
# Tests on their own

The text of a test in an expression is accepted as a whole expression, too,
with the same actions: no alternative of a test takes another way because of
what follows the test.
-/

namespace LuaSandbox
namespace Matcher

open Foundation Util
open Peg

variable {env env' : Rule -> Parser Nat Action} {t : List UInt8}

/-!
## What may follow
-/

/-- The bytes that may follow a test. -/
abbrev followBytes : List UInt8 := ascii "&|)"

theorem windowed_of_avoids_follow (ht : Follow t) (henv' : Shrinks env')
    {p : Grammar} {i o : Bool} (h : Avoids followBytes i p)
    (ho : o = true -> synced i p = true) :
    Windowed env env' t Reach.tight i o p :=
  (windowed_of_avoids ht henv' p i h).weaken (fun hi => hi) ho

theorem loose_of_avoids (ht : Follow t) (henv' : Shrinks env') {p : Grammar}
    (h : Avoids followBytes false p) :
    Windowed env env' t Reach.loose false false p :=
  (windowed_of_avoids_follow ht henv' h (fun ho => by cases ho)).loose

theorem avoids_lit {word : List UInt8} {i : Bool}
    (h : followBytes.all (fun b => !word.contains b) = true) :
    Avoids followBytes i (Peg.lit word : Grammar) := by
  intro b hb hword
  simpa [hword] using List.all_eq_true.mp h b hb

theorem avoids_cls {member : UInt8 -> Bool} (i : Bool)
    (h : followBytes.all (fun b => !member b) = true) :
    Avoids followBytes i (Peg.cls member : Grammar) := by
  intro b hb
  simpa using List.all_eq_true.mp h b hb

theorem avoids_capture_lit {word : List UInt8} {i : Bool}
    (h : followBytes.all (fun b => !word.contains b) = true) :
    Avoids followBytes i (Peg.capture (Peg.lit word) : Grammar) :=
  avoids_lit (i := false) h

/-- The tests without strings and names, part by part. -/
theorem timestamp_avoids : Avoids followBytes false Grammar.timestamp := by
  repeat' apply And.intro
  all_goals first
    | trivial
    | exact Or.inr (fun _ _ => rfl)
    | exact Or.inl rfl
    | exact avoids_lit (by decide)
    | exact avoids_capture_lit (by decide)
    | exact avoids_cls false (by decide)

theorem numbers_avoid : Avoids followBytes false
    (Grammar.alts Grammar.severity [Grammar.pid, Grammar.booleanTest]) := by
  repeat' apply And.intro
  all_goals first
    | trivial
    | exact Or.inr (fun _ _ => rfl)
    | exact Or.inl rfl
    | exact avoids_lit (by decide)
    | exact avoids_cls false (by decide)

theorem relational_avoids : Avoids followBytes false Grammar.relational := by
  repeat' apply And.intro
  all_goals first
    | trivial
    | exact Or.inr (fun _ _ => rfl)
    | exact avoids_lit (by decide)
    | exact avoids_cls false (by decide)

theorem numericValue_avoids :
    Avoids followBytes false Grammar.numericValue :=
  numbers_avoid.1.2.2.2.2.2

theorem stringHeaders_avoid :
    Avoids followBytes false Grammar.stringHeaders := by
  repeat' apply And.intro
  all_goals first
    | exact Or.inr (fun _ _ => rfl)
    | exact avoids_lit (by decide)

/-- The comparisons with a constant. -/
theorem constants_avoid : Avoids followBytes false
    (Grammar.seqs (Grammar.alts Grammar.opEq [Grammar.opNe])
      [Grammar.sp, Grammar.alts Grammar.boolean [Grammar.nilRule]]) := by
  repeat' apply And.intro
  all_goals first
    | trivial
    | exact Or.inr (fun _ _ => rfl)
    | exact avoids_lit (by decide)
    | exact avoids_cls false (by decide)

theorem nil_avoids : Avoids followBytes false
    (Grammar.seqs (Grammar.alts Grammar.opEq [Grammar.opNe])
      [Grammar.sp, Grammar.nilRule]) :=
  ⟨constants_avoid.1, constants_avoid.2.1, constants_avoid.2.2.2⟩

theorem sp_avoids : Avoids followBytes false Grammar.sp :=
  ⟨trivial, avoids_cls false (by decide)⟩

/-!
## Strings
-/

/-- A character of a quoted string, which may be escaped. -/
def quotedChar (quote : String) : Grammar :=
  Grammar.alts (Grammar.seqs (Grammar.token "\\")
      [Grammar.oneOf (quote ++ "\\")])
    [Grammar.seqs (Peg.notAt (Grammar.token quote)) [Grammar.any]]

theorem denote_other (env : Rule -> Parser Nat Action) (d c : UInt8)
    (rest : List UInt8) (k : Kept Nat) :
    denote env (Peg.seq (Peg.notAt (Peg.lit [d])) Grammar.any) (c :: rest) k =
      if d = c then (none, k) else (some (rest, []), k) := by
  by_cases h : d = c <;> simp [Grammar.any, denote, h]

/-- Inside the window a character is taken alike. -/
theorem quotedChar_interior (ht : Follow t) (henv' : Shrinks env')
    {quote : String} {d : UInt8} (hd : ascii quote = [d])
    (hquote : followBytes.all
      (fun b => !(ascii (quote ++ "\\")).contains b) = true)
    (r : List UInt8) (kf kw : Kept Nat) (hr : r ≠ []) :
    Peg.Agrees t Reach.tight false
      (denote env (quotedChar quote) (r ++ t) kf)
      (denote env' (quotedChar quote) r kw) := by
  have hescape : Avoids followBytes false
      (Grammar.seqs (Grammar.token "\\")
        [Grammar.oneOf (quote ++ "\\")]) :=
    ⟨avoids_lit (by decide), avoids_cls false hquote⟩
  refine agrees_alt (windowed_of_avoids_follow ht henv' hescape
    (fun ho => by cases ho) r kf kw (fun hi => by cases hi)) (fun kf kw => ?_)
  cases r with
  | nil => exact absurd rfl hr
  | cons c rest =>
      have hother : Grammar.alts
          (Grammar.seqs (Peg.notAt (Grammar.token quote)) [Grammar.any]) [] =
            Peg.seq (Peg.notAt (Peg.lit [d])) Grammar.any := by
        rw [← hd]
        rfl
      rw [hother, List.cons_append, denote_other, denote_other]
      by_cases hc : d = c
      · rw [if_pos hc, if_pos hc]
        exact Agrees.fails kf kw
      · rw [if_neg hc, if_neg hc]
        exact Agrees.within rest [] kf kw (fun ho => by cases ho)

theorem quoted_windowed (ht : Follow t) (henv : Shrinks env)
    (henv' : Shrinks env') {quote : String} {d : UInt8}
    (hd : ascii quote = [d])
    (hquote : followBytes.all
      (fun b => !(ascii (quote ++ "\\")).contains b) = true)
    (havoid : followBytes.all (fun b => !(ascii quote).contains b) = true) :
    Windowed env env' t Reach.strict false true (Grammar.quoted quote) := by
  have hcons : Consumes (quotedChar quote) :=
    ⟨Or.inr trivial, Or.inr trivial⟩
  have hopen : Windowed env env' t Reach.tight false false
      (Grammar.token quote) :=
    windowed_of_avoids_follow ht henv' (avoids_lit havoid)
      (fun ho => by cases ho)
  have hnext : t.head? ≠ some d := by
    intro hsome
    have hout := List.all_eq_true.mp havoid d (ht d hsome)
    rw [hd] at hout
    simp at hout
  have hbody := windowed_delimited henv henv' hnext hcons
    (quotedChar_interior ht henv' hd hquote)
  rw [← hd] at hbody
  exact windowed_seq_tight hopen hbody

theorem stringValue_windowed (ht : Follow t) (henv : Shrinks env)
    (henv' : Shrinks env') :
    Windowed env env' t Reach.strict false true Grammar.stringValue := by
  have hdouble : Opens (fun b => b = 0x22) (Grammar.quoted "\"") :=
    Or.inl rfl
  have hsingle : Opens (fun b => b = 0x27) (Grammar.quoted "'") :=
    Or.inl rfl
  refine windowed_seq_strict henv (fun h => by cases h)
    (windowed_alt_disjoint
      (quoted_windowed ht henv henv' (d := 0x22) (by decide) (by decide)
        (by decide))
      (quoted_windowed ht henv henv' (d := 0x27) (by decide) (by decide)
        (by decide)) ?_) ?_
  · intro r kf kw hsome
    rcases hfull : denote env (Grammar.quoted "\"") (r ++ t) kf with
      ⟨_ | ⟨r1, ts1⟩, k1⟩
    · rw [hfull] at hsome
      exact absurd rfl hsome
    · rcases opens_head _ hdouble hfull with ⟨b, rest, hr, rfl⟩
      change (denote env' (Grammar.quoted "'") r kw).1 = none
      rcases hwindow : denote env' (Grammar.quoted "'") r kw with
        ⟨_ | ⟨r2, ts2⟩, k2⟩
      · rfl
      · rcases opens_head _ hsingle hwindow with ⟨c, rest', rfl, rfl⟩
        cases hr
  · have hcheck : Avoids followBytes true
        (Grammar.seqs
          (Peg.check (fun yytext cnt => (checkStringLen yytext, cnt)))
          [Grammar.actText Action.setStringValue]) :=
      ⟨⟨rfl, fun _ _ _ => rfl⟩, Or.inl rfl⟩
    exact (windowed_of_avoids_follow ht henv' hcheck
      (fun _ => rfl)).strict_of_tight

theorem stringMatch_windowed (ht : Follow t) (henv : Shrinks env)
    (henv' : Shrinks env') :
    Windowed env env' t Reach.strict false false Grammar.stringMatch := by
  have hop : Avoids followBytes false
      (Grammar.alts Grammar.opSeq [Grammar.opSne]) := by
    repeat' apply And.intro
    all_goals first
      | trivial
      | exact Or.inr (fun _ _ => rfl)
      | exact avoids_lit (by decide)
      | exact avoids_cls false (by decide)
  have hmod : Avoids followBytes false
      (Grammar.seqs (Peg.opt Grammar.stringMatchMod)
        [Grammar.act Action.setMatchMod]) :=
    ⟨⟨avoids_lit (by decide), Or.inr (fun _ _ => rfl)⟩,
      Or.inr (fun _ _ => rfl)⟩
  refine windowed_seq_tight (windowed_of_avoids_follow ht henv' hop
    (fun ho => ho)) (windowed_seq_tight (windowed_of_avoids_follow ht henv'
      sp_avoids (fun ho => ho)) (windowed_seq_strict henv (fun h => by cases h)
        (stringValue_windowed ht henv henv') ?_))
  exact (windowed_of_avoids_follow ht henv' hmod
    (fun ho => ho)).strict_of_tight.weaken (fun hi => by cases hi) (fun ho => ho)

/-!
## Fields
-/

/-- A byte of a field name. -/
def nameChar : Grammar := Peg.cls (fun b => b != 0x5d)

/-- What follows the name of a field. -/
def fieldIndices : Grammar :=
  Grammar.seqs (Grammar.actText Action.setField)
    [Peg.opt (Grammar.seqs Grammar.index [Grammar.act (Action.yySet 2)]),
    Grammar.act Action.setFi,
    Peg.opt (Grammar.seqs Grammar.index [Grammar.act (Action.yySet 1)]),
    Grammar.act Action.setAi, Grammar.act (Action.yyPop 2)]

theorem fieldIndices_avoids : Avoids followBytes true fieldIndices := by
  repeat' apply And.intro
  all_goals first
    | trivial
    | exact Or.inr (fun _ _ => rfl)
    | exact Or.inl rfl
    | exact avoids_lit (by decide)
    | exact avoids_cls false (by decide)

theorem fields_windowed (ht : Follow t) (henv : Shrinks env)
    (henv' : Shrinks env') :
    Windowed env env' t Reach.strict false false Grammar.fields := by
  have hnext : t.head? ≠ some 0x5d := by
    intro hsome
    have hmem := ht 0x5d hsome
    revert hmem
    decide
  have hinterior : forall (r : List UInt8) (kf kw : Kept Nat), r ≠ [] ->
      Peg.Agrees t Reach.tight false (denote env nameChar (r ++ t) kf)
        (denote env' nameChar r kw) := by
    intro r kf kw hr
    cases r with
    | nil => exact absurd rfl hr
    | cons b rest =>
        by_cases hb : (b != 0x5d) = true
        · simp only [nameChar, denote, List.cons_append, if_pos hb]
          exact Agrees.within rest [] kf kw (fun ho => by cases ho)
        · simp only [nameChar, denote, List.cons_append, if_neg hb]
          exact Agrees.fails kf kw
  have hconsumes : Consumes nameChar := trivial
  have hname := windowed_delimited henv henv' hnext hconsumes hinterior
  have hindices : Windowed env env' t Reach.strict true false fieldIndices :=
    (windowed_of_avoids_follow ht henv' fieldIndices_avoids
      (fun ho => by cases ho)).strict_of_tight
  have hrest := windowed_seq_assoc
    (windowed_seq_strict henv (fun h => by cases h) hname hindices)
  have hopen : Avoids followBytes false
      (Peg.lit (ascii "Fields[") : Grammar) := avoids_lit (by decide)
  refine windowed_seq_tight (windowed_act false (Or.inr (fun _ _ => rfl)))
    (windowed_seq_tight (windowed_of_avoids_follow ht henv' hopen
      (fun ho => ho)) ?_)
  exact hrest

/-!
## Tests
-/

/-- A comparison of strings. -/
theorem stringComparison_windowed (ht : Follow t) (henv : Shrinks env)
    (henv' : Shrinks env') :
    Windowed env env' t Reach.loose false false
      (Grammar.seqs Grammar.relational [Grammar.sp, Grammar.stringValue]) :=
  windowed_seq_tight
    (windowed_of_avoids_follow ht henv' relational_avoids (fun ho => by cases ho))
    (windowed_seq_tight
      (windowed_of_avoids_follow ht henv' sp_avoids (fun ho => ho))
      ((stringValue_windowed ht henv henv').loose.weaken (fun hi => hi)
        (fun ho => by cases ho)))

theorem uuid_windowed (ht : Follow t) (henv : Shrinks env)
    (henv' : Shrinks env') :
    Windowed env env' t Reach.loose false false Grammar.uuid := by
  have hopen : Avoids followBytes false
      (Peg.lit (ascii "Uuid") : Grammar) := avoids_lit (by decide)
  exact windowed_seq_tight
    (windowed_of_avoids_follow ht henv' hopen (fun ho => ho))
    (windowed_seq_tight (windowed_act false (Or.inr (fun _ _ => rfl)))
      (windowed_seq_tight
        (windowed_of_avoids_follow ht henv' sp_avoids (fun ho => ho))
        (windowed_alt_loose (stringComparison_windowed ht henv henv')
          (stringMatch_windowed ht henv henv').loose)))

theorem optionalStringHeaders_windowed (ht : Follow t) (henv : Shrinks env)
    (henv' : Shrinks env') :
    Windowed env env' t Reach.loose false false
      Grammar.optionalStringHeaders := by
  exact windowed_seq_tight
    (windowed_of_avoids_follow ht henv' stringHeaders_avoid
      (fun ho => by cases ho))
    (windowed_seq_tight
      (windowed_of_avoids_follow ht henv' sp_avoids (fun ho => ho))
      (windowed_alt_loose (stringComparison_windowed ht henv henv')
        (windowed_alt_loose (stringMatch_windowed ht henv henv').loose
          (loose_of_avoids ht henv' nil_avoids))))

/-- What follows a field in a test. -/
def fieldComparison : Grammar :=
  Grammar.seqs Grammar.sp
    [Grammar.alts
      (Grammar.seqs Grammar.relational [Grammar.sp,
        Grammar.alts Grammar.stringValue [Grammar.numericValue]])
      [Grammar.stringMatch,
      Grammar.seqs (Grammar.alts Grammar.opEq [Grammar.opNe])
        [Grammar.sp, Grammar.alts Grammar.boolean [Grammar.nilRule]]]]

theorem fieldComparison_windowed (ht : Follow t) (henv : Shrinks env)
    (henv' : Shrinks env') :
    Windowed env env' t Reach.loose false false fieldComparison := by
  have hvalue : Windowed env env' t Reach.loose false false
      (Grammar.seqs Grammar.relational [Grammar.sp,
        Grammar.alts Grammar.stringValue [Grammar.numericValue]]) :=
    windowed_seq_tight
      (windowed_of_avoids_follow ht henv' relational_avoids
        (fun ho => by cases ho))
      (windowed_seq_tight
        (windowed_of_avoids_follow ht henv' sp_avoids (fun ho => ho))
        (windowed_alt_loose
          ((stringValue_windowed ht henv henv').loose.weaken (fun hi => hi)
            (fun ho => by cases ho))
          (loose_of_avoids ht henv' numericValue_avoids)))
  exact windowed_seq_tight
    (windowed_of_avoids_follow ht henv' sp_avoids (fun ho => ho))
    (windowed_alt_loose hvalue
      (windowed_alt_loose (stringMatch_windowed ht henv henv').loose
        (loose_of_avoids ht henv' constants_avoid)))

theorem fieldTest_windowed (ht : Follow t) (henv : Shrinks env)
    (henv' : Shrinks env') :
    Windowed env env' t Reach.loose false false Grammar.fieldTest :=
  windowed_seq_strict henv (fun h => by cases h)
    (fields_windowed ht henv henv') (fieldComparison_windowed ht henv henv')

theorem denote_output (env : Rule -> Parser Nat Action) (r : List UInt8)
    (k : Kept Nat) :
    denote env (Peg.seq (Grammar.act Action.pushOutput) Grammar.sp) r k =
      (some (r.dropWhile isSpace, [Action.pushOutput]), k) := by
  have hsp : denote env Grammar.sp r k = _ := denote_star_cls env isSpace r k
  rw [denote_seq]
  simp only [Grammar.act, denote, andThen]
  rw [show denote env Grammar.sp r k = _ from hsp]
  rfl

theorem test_windowed (ht : Follow t) (henv : Shrinks env)
    (henv' : Shrinks env') :
    Windowed env env' t Reach.loose false false Grammar.test := by
  have houtput : Avoids followBytes false
      (Peg.seq (Grammar.act Action.pushOutput) Grammar.sp) :=
    ⟨Or.inr (fun _ _ => rfl), sp_avoids⟩
  have htotal : Total env
      (Peg.seq (Grammar.act Action.pushOutput) Grammar.sp) := by
    intro r k hnone
    rw [denote_output] at hnone
    cases hnone
  have hbody := windowed_alt_loose (uuid_windowed ht henv henv')
    (windowed_alt_loose (loose_of_avoids ht henv' timestamp_avoids)
      (windowed_alt_loose (optionalStringHeaders_windowed ht henv henv')
        (windowed_alt_loose (loose_of_avoids ht henv' numbers_avoid.1)
          (windowed_alt_loose (loose_of_avoids ht henv' numbers_avoid.2.1)
            (windowed_alt_loose (fieldTest_windowed ht henv henv')
              (loose_of_avoids ht henv' numbers_avoid.2.2))))))
  exact windowed_seq_total henv hbody (loose_of_avoids ht henv' houtput) htotal

/-- The text of a test is a test with nothing behind it. -/
theorem TestText.parsed_alone (t : TestText) (henv' : Shrinks env')
    (kw : Kept Nat) :
    exists kw', denote env' Grammar.test t.source kw =
      (some ([], t.actions), kw') := by
  rcases t.parsed with ⟨env, r, k, k', henv, hfollow, hparse⟩
  have hwindow := test_windowed hfollow henv henv' t.source k kw
    (fun hi => by cases hi)
  rw [hparse] at hwindow
  exact hwindow.whole

/-!
## Whole expressions
-/

/-- Every test starts with a name or a constant. -/
theorem test_opens : Opens (fun b => isSpace b = false) Grammar.test :=
  Or.inl ⟨Or.inl rfl, Or.inl rfl,
    Or.inl ⟨Or.inl rfl, Or.inl rfl, Or.inl rfl, Or.inl rfl, Or.inl rfl⟩,
    Or.inl rfl, Or.inl rfl, Or.inl (Or.inr ⟨rfl, Or.inl rfl⟩),
    Or.inl (Or.inl rfl), Or.inl (Or.inl rfl)⟩

/-- A chain of one operand with nothing behind it. -/
theorem chain_alone (henv : Shrinks env) {operand : Grammar} {word : String}
    {op : MatchOperation} (hword : ascii word ≠ []) {r : List UInt8}
    {k k1 : Kept Nat} {ts : List Action}
    (h : denote env operand r k = (some ([], ts), k1)) :
    exists k2, denote env (Grammar.seqs operand
      [Peg.star (chainRound word op operand), Grammar.sp]) r k =
        (some ([], ts), k2) := by
  have hcons : Consumes (chainRound word op operand) :=
    Or.inl (Or.inl hword)
  rcases denote_star_nil henv hcons k1 with ⟨k2, hstar⟩
  have hsp : denote env Grammar.sp [] k2 = _ :=
    denote_star_cls env isSpace [] k2
  exact ⟨k2, seq_eq_some.mpr ⟨[], ts, k1, [], h,
    seq_eq_some.mpr ⟨[], [], k2, [], hstar, hsp, rfl⟩, by simp⟩⟩

theorem anded_alone (henv : Shrinks env) {r : List UInt8} {k k1 : Kept Nat}
    {ts : List Action}
    (h : denote env Grammar.test r k = (some ([], ts), k1)) :
    exists k2, denote env Grammar.anded r k = (some ([], ts), k2) := by
  have hexpr : denote env Grammar.expr r k = (some ([], ts), k1) :=
    alt_eq_some.mpr (Or.inl h)
  have hword : ascii "&&" ≠ [] := by decide
  exact chain_alone henv hword hexpr

theorem ored_alone (henv : Shrinks env) {r : List UInt8} {k k1 : Kept Nat}
    {ts : List Action}
    (h : denote env Grammar.test r k = (some ([], ts), k1)) :
    exists k2, denote env Grammar.ored r k = (some ([], ts), k2) := by
  rcases anded_alone henv h with ⟨k2, handed⟩
  have hword : ascii "||" ≠ [] := by decide
  exact chain_alone henv hword handed

theorem matchRule_alone {n : Nat} {r : List UInt8} {k k1 : Kept Nat}
    {ts : List Action} (hspace : r.dropWhile isSpace = r)
    (h : denote (parse Grammar.rules n) Grammar.test r k =
      (some ([], ts), k1)) :
    exists k2, denote (parse Grammar.rules (n + 1)) Grammar.matchRule r k =
      (some ([], ts ++ [Action.popAllOps]), k2) := by
  have hsp : denote (parse Grammar.rules (n + 1)) Grammar.sp r k =
      (some (r, []), k) := by
    have hstar := denote_star_cls (parse Grammar.rules (n + 1)) isSpace r k
    rw [hspace] at hstar
    exact hstar
  rcases ored_alone (parse_shrinks Grammar.rules n) h with ⟨k2, hored⟩
  have hcall : denote (parse Grammar.rules (n + 1)) (Peg.call Rule.ored) r k =
      (some ([], ts), k2) := by
    rw [denote, parse_succ]
    exact hored
  have heol : denote (parse Grammar.rules (n + 1)) Grammar.eol [] k2 =
      (some ([], []), k2) := rfl
  have hpop : denote (parse Grammar.rules (n + 1))
      (Grammar.act Action.popAllOps) [] k2 =
        (some ([], [Action.popAllOps]), k2) := rfl
  exact ⟨k2, seq_eq_some.mpr ⟨r, [], k, _, hsp,
    seq_eq_some.mpr ⟨[], ts, k2, _, hcall,
      seq_eq_some.mpr ⟨[], [], k2, _, heol, hpop, rfl⟩, rfl⟩, rfl⟩⟩

/-- The text of a test is an expression with the same actions. -/
theorem TestText.yyparse_source (t : TestText) :
    yyparse t.source = some (t.actions ++ [Action.popAllOps]) := by
  rcases t.parsed_alone (parse_shrinks Grammar.rules t.source.length)
    ⟨t.source, t.source, 0⟩ with ⟨k1, htest⟩
  have hspace : t.source.dropWhile isSpace = t.source := by
    rcases opens_head _ test_opens htest with ⟨b, rest, hsource, hb⟩
    rw [hsource, List.dropWhile_cons_of_neg (by rw [hb]; exact Bool.false_ne_true)]
  rcases matchRule_alone hspace htest with ⟨k2, hmatch⟩
  rw [yyparse, yyparseWithin, hmatch]
  rfl

end Matcher
end LuaSandbox
