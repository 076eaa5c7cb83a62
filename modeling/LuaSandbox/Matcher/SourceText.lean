import LuaSandbox.Foundation.Peg.Forward
import LuaSandbox.Matcher.Composition

/-!
# Source texts of tests

How the parser takes the tokens that the tests are built from, in front of any
rest, and what it does with a text on which every test fails.
-/

namespace LuaSandbox
namespace Matcher

open Foundation Util
open Peg

variable {env : Rule -> Parser Nat Action} {A B : Kept Nat -> Prop}
variable {r gap : List UInt8}

/-!
## White space and operators
-/

/-- The rest does not start with white space. -/
def NoSpace (r : List UInt8) : Prop :=
  forall b, r.head? = some b -> isSpace b = false

theorem noSpace_nil : NoSpace [] := nofun

theorem noSpace_cons {b : UInt8} (h : isSpace b = false) :
    NoSpace (b :: r) := by
  intro c hc
  cases hc
  exact h

theorem succeeds_sp (hgap : Gap gap) (hr : NoSpace r) :
    Succeeds env Grammar.sp A (gap ++ r) r [] A :=
  succeeds_star_members hgap hr

theorem succeeds_sp_nil (hr : NoSpace r) :
    Succeeds env Grammar.sp A r r [] A :=
  succeeds_sp gap_nil hr

/-- An operator and the white space behind it. -/
theorem succeeds_opRule {s : String} {op : MatchOperation} (hgap : Gap gap)
    (hr : NoSpace r) :
    Succeeds env (Grammar.opRule s op) A (ascii s ++ (gap ++ r)) r
      [Action.setOp op] A :=
  succeeds_seq (succeeds_lit (ascii s))
    (succeeds_seq (succeeds_sp hgap hr) (succeeds_act_const _))

/-- The comparisons. -/
inductive Relation where
  | eq | ne | gte | gt | lte | lt
  deriving DecidableEq

namespace Relation

def text : Relation -> String
  | eq => "=="
  | ne => "!="
  | gte => ">="
  | gt => ">"
  | lte => "<="
  | lt => "<"

def op : Relation -> MatchOperation
  | eq => MatchOperation.opEq
  | ne => MatchOperation.opNe
  | gte => MatchOperation.opGte
  | gt => MatchOperation.opGt
  | lte => MatchOperation.opLte
  | lt => MatchOperation.opLt

end Relation

/-- A rest that does not turn an operator into a longer one. -/
def NoEquals (r : List UInt8) : Prop := r.head? ≠ some 0x3d

theorem fails_longer {c : UInt8} {op : MatchOperation} {s : String}
    (hs : ascii s = [c, 0x3d]) (hr : NoEquals r) :
    Fails env (Grammar.opRule s op) A (c :: r) := by
  apply fails_seq_left
  apply fails_lit
  rw [hs, Bool.eq_false_iff]
  intro hprefix
  rw [List.isPrefixOf_iff_prefix, List.prefix_cons_inj] at hprefix
  rcases hprefix with ⟨t, rfl⟩
  exact hr rfl

theorem succeeds_relational (rel : Relation) (hgap : Gap gap)
    (hr : NoSpace r) (hequals : NoEquals (gap ++ r)) :
    Succeeds env Grammar.relational A (ascii rel.text ++ (gap ++ r)) r
      [Action.setOp rel.op] Anything := by
  have hop : forall {s : String} {op : MatchOperation} {A : Kept Nat -> Prop},
      Succeeds env (Grammar.opRule s op) A (ascii s ++ (gap ++ r)) r
        [Action.setOp op] Anything :=
    (succeeds_opRule hgap hr).anything
  have hother : forall {s : String} {op : MatchOperation} {A : Kept Nat -> Prop},
      incomparable (ascii s) (ascii rel.text) = true ->
        Fails env (Grammar.opRule s op) A (ascii rel.text ++ (gap ++ r)) :=
    fun h => fails_seq_left (fails_lit_of_incomparable h)
  cases rel with
  | eq => exact succeeds_alt_left hop
  | ne =>
      exact succeeds_alt_right (hother (by decide)) (succeeds_alt_left hop)
  | gte =>
      exact succeeds_alt_right (hother (by decide))
        (succeeds_alt_right (hother (by decide)) (succeeds_alt_left hop))
  | gt =>
      exact succeeds_alt_right (hother (by decide))
        (succeeds_alt_right (hother (by decide))
          (succeeds_alt_right (fails_longer (by decide) hequals)
            (succeeds_alt_left hop)))
  | lte =>
      exact succeeds_alt_right (hother (by decide))
        (succeeds_alt_right (hother (by decide))
          (succeeds_alt_right (hother (by decide))
            (succeeds_alt_right (hother (by decide))
              (succeeds_alt_left hop))))
  | lt =>
      exact succeeds_alt_right (hother (by decide))
        (succeeds_alt_right (hother (by decide))
          (succeeds_alt_right (hother (by decide))
            (succeeds_alt_right (hother (by decide))
              (succeeds_alt_right (fails_longer (by decide) hequals) hop))))

/-- The operators of patterns. -/
inductive PatternRelation where
  | is | isNot
  deriving DecidableEq

namespace PatternRelation

def text : PatternRelation -> String
  | is => "=~"
  | isNot => "!~"

def op : PatternRelation -> MatchOperation
  | is => MatchOperation.opRe
  | isNot => MatchOperation.opNre

end PatternRelation

theorem succeeds_patternOp (rel : PatternRelation) (hgap : Gap gap)
    (hr : NoSpace r) :
    Succeeds env (Grammar.alts Grammar.opSeq [Grammar.opSne]) A
      (ascii rel.text ++ (gap ++ r)) r [Action.setOp rel.op] Anything := by
  cases rel with
  | is => exact succeeds_alt_left (succeeds_opRule hgap hr).anything
  | isNot =>
      exact succeeds_alt_right (fails_of_rejects Grammar.opSeq (by decide))
        (succeeds_opRule hgap hr).anything

/-!
## Quoted strings
-/

inductive Quote where
  | double | single
  deriving DecidableEq

namespace Quote

def byte : Quote -> UInt8
  | double => 0x22
  | single => 0x27

def text : Quote -> String
  | double => "\""
  | single => "'"

theorem ascii_text (quote : Quote) : ascii quote.text = [quote.byte] := by
  cases quote <;> decide

end Quote

/-- A character of a literal as it is written between the quotes. -/
def escapeChar (quote : Quote) (c : UInt8) : List UInt8 :=
  if c = quote.byte ∨ c = 0x5c then [0x5c, c] else [c]

/-- A backslash before each quote and each backslash. -/
def escapeQuotes (quote : Quote) (s : List UInt8) : List UInt8 :=
  (s.map (escapeChar quote)).flatten

/-- The text of a literal. -/
def quotedText (quote : Quote) (s : List UInt8) : List UInt8 :=
  [quote.byte] ++ (escapeQuotes quote s ++ [quote.byte])

/-- The unescaping takes back what the escaping adds. -/
theorem unescapeQuotes_escapeQuotes (quote : Quote) (s : List UInt8) :
    unescapeQuotes (escapeQuotes quote s) = s := by
  induction s with
  | nil => rfl
  | cons c s ih =>
      have hcons : escapeQuotes quote (c :: s) =
          escapeChar quote c ++ escapeQuotes quote s := rfl
      rw [hcons, escapeChar]
      split
      · rename_i hescaped
        rcases hescaped with rfl | rfl
        · cases quote with
          | double =>
              change unescapeQuotes
                (0x5c :: 0x22 :: escapeQuotes Quote.double s) = _
              rw [unescapeQuotes, ih]
              rfl
          | single =>
              change unescapeQuotes
                (0x5c :: 0x27 :: escapeQuotes Quote.single s) = _
              rw [unescapeQuotes, ih]
              rfl
        · change unescapeQuotes (0x5c :: 0x5c :: escapeQuotes quote s) = _
          rw [unescapeQuotes, ih]
      · rename_i hplain
        rw [not_or] at hplain
        rw [List.singleton_append, unescapeQuotes, ih]
        · exact fun _ h => absurd h hplain.2
        · exact fun _ h => absurd h hplain.2
        · exact fun _ h => absurd h hplain.2

theorem escapeChar_ne_nil (quote : Quote) (c : UInt8) :
    escapeChar quote c ≠ [] := by
  unfold escapeChar
  split <;> exact List.cons_ne_nil _ _

/-- A token of one byte fails in front of another byte. -/
theorem fails_token {s : String} {d c : UInt8} (hs : ascii s = [d])
    (h : d ≠ c) : Fails env (Grammar.token s) A (c :: r) := by
  apply fails_lit
  rw [hs, List.isPrefixOf, beq_eq_false_iff_ne.mpr h, Bool.false_and]

theorem succeeds_token {s : String} {d : UInt8} (hs : ascii s = [d]) :
    Succeeds env (Grammar.token s) A (d :: r) r [] A := by
  intro k hk
  refine ⟨k, lit_eq_some.mpr ⟨?_, rfl, rfl⟩, hk⟩
  rw [hs, List.singleton_append]

theorem succeeds_quotedChar (quote : Quote) (c : UInt8) :
    Succeeds env (quotedChar quote.text) A (escapeChar quote c ++ r) r []
      Anything := by
  unfold escapeChar
  split
  · rename_i hescaped
    have hmember : (ascii (quote.text ++ "\\")).contains c = true := by
      rcases hescaped with rfl | rfl <;> cases quote <;> decide
    exact (succeeds_alt_left (succeeds_seq (succeeds_token (by decide))
      (succeeds_cls hmember))).anything
  · rename_i hplain
    rw [not_or] at hplain
    apply succeeds_alt_right
    · exact fails_seq_left (fails_token (by decide) (Ne.symm hplain.2))
    · exact succeeds_seq
        (succeeds_notAt (fails_token quote.ascii_text (Ne.symm hplain.1)))
        (succeeds_cls rfl)

/-- An unescaped quote ends the literal. -/
theorem fails_quotedChar (quote : Quote) :
    Fails env (quotedChar quote.text) A (quote.byte :: r) := by
  apply fails_alt
  · apply fails_seq_left
    apply fails_token (d := 0x5c) (by decide)
    cases quote <;> decide
  · exact fails_seq_left (fails_notAt (A := Anything) (B := Anything)
      (succeeds_token quote.ascii_text))

theorem succeeds_quoted (quote : Quote) (s : List UInt8) :
    Succeeds env (Grammar.quoted quote.text) A (quotedText quote s ++ r) r []
      (TextIs (escapeQuotes quote s)) := by
  have hchunks : Succeeds env (Peg.star (quotedChar quote.text)) Anything
      (escapeQuotes quote s ++ (quote.byte :: r)) (quote.byte :: r) []
      Anything := by
    apply succeeds_star_chunks
    · intro chunk hchunk r
      rcases List.mem_map.mp hchunk with ⟨c, -, rfl⟩
      exact succeeds_quotedChar quote c
    · intro chunk hchunk
      rcases List.mem_map.mp hchunk with ⟨c, -, rfl⟩
      exact escapeChar_ne_nil quote c
    · exact fails_quotedChar quote
  have htext : quotedText quote s ++ r =
      quote.byte :: (escapeQuotes quote s ++ (quote.byte :: r)) := by
    simp [quotedText]
  rw [htext]
  exact succeeds_seq (succeeds_token quote.ascii_text)
    (succeeds_seq (succeeds_capture hchunks) (succeeds_token quote.ascii_text))

theorem succeeds_anyQuoted (quote : Quote) (s : List UInt8) :
    Succeeds env (Grammar.alts (Grammar.quoted "\"") [Grammar.quoted "'"]) A
      (quotedText quote s ++ r) r [] (TextIs (escapeQuotes quote s)) := by
  cases quote with
  | double => exact succeeds_alt_left (succeeds_quoted Quote.double s)
  | single =>
      apply succeeds_alt_right
      · exact fails_seq_left (fails_token (d := 0x22) (by decide) (by decide))
      · exact succeeds_quoted Quote.single s

theorem checkStringLen_escapeQuotes (quote : Quote) (s : List UInt8) :
    checkStringLen (escapeQuotes quote s) = decide (s.length <= 255) := by
  rw [checkStringLen, unescapeQuotes_escapeQuotes]

theorem succeeds_stringValue (quote : Quote) {s : List UInt8}
    (h : s.length <= 255) :
    Succeeds env Grammar.stringValue A (quotedText quote s ++ r) r
      [Action.setStringValue (escapeQuotes quote s)] Anything := by
  have hcheck : checkStringLen (escapeQuotes quote s) = true := by
    rw [checkStringLen_escapeQuotes]
    exact decide_eq_true h
  exact (succeeds_seq (succeeds_anyQuoted quote s)
    (succeeds_seq (succeeds_check (fun _ => hcheck))
      (succeeds_act Action.setStringValue _))).anything

theorem fails_stringValue (quote : Quote) {s : List UInt8}
    (h : 255 < s.length) :
    Fails env Grammar.stringValue A (quotedText quote s ++ r) := by
  have hcheck : checkStringLen (escapeQuotes quote s) = false := by
    rw [checkStringLen_escapeQuotes]
    exact decide_eq_false (Nat.not_le.mpr h)
  exact fails_seq_right (succeeds_anyQuoted quote s)
    (fails_seq_left (fails_check (fun _ => hcheck)))

/-!
## Accepted texts
-/

theorem Succeeds.actions_eq {p : Grammar} {r' : List UInt8}
    {ts ts' : List Action} (h : Succeeds env p A r r' ts B) (hts : ts = ts') :
    Succeeds env p A r r' ts' B :=
  hts ▸ h

/-- The output of the node ends a test. -/
theorem succeeds_test {s : List UInt8} {ts : List Action}
    (h : Succeeds env (Grammar.alts Grammar.uuid [Grammar.timestamp,
      Grammar.optionalStringHeaders, Grammar.severity, Grammar.pid,
      Grammar.fieldTest, Grammar.booleanTest]) Anything s [] ts Anything) :
    Succeeds env Grammar.test Anything s [] (ts ++ [Action.pushOutput])
      Anything :=
  succeeds_seq h
    (succeeds_seq (succeeds_act_const _) (succeeds_sp_nil noSpace_nil))

theorem shrinks_none : Shrinks (fun (_ : Rule) (_ : List UInt8)
    (k : Kept Nat) => ((none, k) : Outcome Nat Action)) :=
  fun _ _ _ _ _ h => by cases h

/-- A text that is a test compiles to the node of its form. -/
theorem compiled_of_succeeds {s : List UInt8} {form : TestForm}
    (h : forall env : Rule -> Parser Nat Action, Shrinks env ->
      Succeeds env Grammar.test Anything s [] form.actions Anything) :
    exists mm, lsbCreateMessageMatcher s = some mm ∧
      mm.testNodes = [copyNode 0 (form.node 0 0)] := by
  have hparse : (denote (fun _ _ k => (none, k)) Grammar.test (s ++ [])
      ⟨[], [], 0⟩).1 = some ([], form.actions) := by
    rcases h (fun _ _ k => (none, k)) shrinks_none ⟨[], [], 0⟩ trivial with
      ⟨k, hdenote, -⟩
    rw [List.append_nil, hdenote]
  exact (textOf s form hparse).compiled_alone

/-!
## Rejected texts
-/

/-- A text on which no test succeeds and that no parenthesis opens is not
accepted. -/
theorem yyparse_eq_none {s : List UInt8} (hs : NoSpace s)
    (hopen : s.head? ≠ some 0x28)
    (h : forall env : Rule -> Parser Nat Action,
      Fails env Grammar.test Anything s) :
    yyparse s = none := by
  have hored : forall env : Rule -> Parser Nat Action,
      Fails env Grammar.ored Anything s := by
    intro env
    refine fails_seq_left (fails_seq_left (fails_alt (h env) ?_))
    apply fails_seq_left
    apply fails_seq_left
    apply fails_lit
    rw [show ascii "(" = [0x28] from by decide]
    cases s with
    | nil => rfl
    | cons b rest =>
        have hb : 0x28 ≠ b := fun hb => hopen (by rw [← hb]; rfl)
        rw [List.isPrefixOf, beq_eq_false_iff_ne.mpr hb, Bool.false_and]
  have hmatch : Fails (parse Grammar.rules (s.length + 1)) Grammar.matchRule
      Anything s := by
    refine fails_seq_right (succeeds_sp_nil (A := Anything) hs)
      (fails_seq_left ?_)
    intro k _
    rcases hored (parse Grammar.rules s.length) k trivial with ⟨k1, hdenote⟩
    refine ⟨k1, ?_⟩
    rw [denote, parse_succ]
    exact hdenote
  rcases hmatch ⟨s, s, 0⟩ trivial with ⟨k, hdenote⟩
  rw [yyparse, yyparseWithin, hdenote]
  rfl

theorem lsbCreateMessageMatcher_eq_none {s : List UInt8} (hs : NoSpace s)
    (hopen : s.head? ≠ some 0x28)
    (h : forall env : Rule -> Parser Nat Action,
      Fails env Grammar.test Anything s) :
    lsbCreateMessageMatcher s = none := by
  unfold lsbCreateMessageMatcher
  rw [yyparse_eq_none hs hopen h]

end Matcher
end LuaSandbox
