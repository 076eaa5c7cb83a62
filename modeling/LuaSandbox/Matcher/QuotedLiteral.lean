import LuaSandbox.Matcher.FieldReference

/-!
# Quoted literals

Every test that compares with a string, and the literal that the node of such a
test holds.
-/

namespace LuaSandbox
namespace Matcher

open Foundation Util
open Peg

variable {env : Rule -> Parser Nat Action} {A : Kept Nat -> Prop}
variable {r gap : List UInt8}

/-!
## Operators in front of a literal
-/

/-- An operator that takes a string; a pattern may be marked as literal. -/
inductive StringOperator where
  | relation (rel : Relation)
  | pattern (rel : PatternRelation) (literal : Bool)
  deriving DecidableEq

namespace StringOperator

def text : StringOperator -> List UInt8
  | relation rel => ascii rel.text
  | pattern rel _ => ascii rel.text

/-- What stands behind the literal. -/
def mark : StringOperator -> List UInt8
  | relation _ => []
  | pattern _ literal => if literal then ascii "%" else []

def actions (value : List UInt8) : StringOperator -> List Action
  | relation rel => [Action.setOp rel.op, Action.setStringValue value]
  | pattern rel literal =>
      [Action.setOp rel.op, Action.setStringValue value] ++
        (if literal then [Action.setPatternModEsc] else []) ++
        [Action.setMatchMod]

theorem actions_flat (value : List UInt8) (op : StringOperator) :
    forall a, a ∈ op.actions value -> a.Flat := by
  cases op with
  | relation rel =>
      refine List.forall_mem_cons.mpr
        ⟨?_, List.forall_mem_singleton.mpr trivial⟩
      cases rel <;> rfl
  | pattern rel literal =>
      refine List.forall_mem_append.mpr
        ⟨List.forall_mem_append.mpr ⟨List.forall_mem_cons.mpr
          ⟨?_, List.forall_mem_singleton.mpr trivial⟩, ?_⟩,
          List.forall_mem_singleton.mpr trivial⟩
      · cases rel <;> rfl
      · cases literal with
        | false => exact fun a ha => nomatch ha
        | true => exact List.forall_mem_singleton.mpr trivial

end StringOperator

theorem noSpace_quote (quote : Quote) : NoSpace (quote.byte :: r) := by
  apply noSpace_cons
  cases quote <;> decide

theorem noSpace_quoted (quote : Quote) (s r : List UInt8) :
    NoSpace (quotedText quote s ++ r) :=
  noSpace_quote quote

theorem noEquals_gap (hgap : Gap gap) (hr : NoEquals r) :
    NoEquals (gap ++ r) := by
  cases gap with
  | nil => exact hr
  | cons b rest =>
      intro hb
      rw [List.cons_append, List.head?_cons, Option.some_inj] at hb
      have hspace := hgap b List.mem_cons_self
      rw [hb] at hspace
      revert hspace
      decide

theorem noEquals_quote (quote : Quote) : NoEquals (quote.byte :: r) := by
  change some quote.byte ≠ some 0x3d
  cases quote <;> decide

theorem noEquals_quoted (quote : Quote) (s r : List UInt8) :
    NoEquals (quotedText quote s ++ r) :=
  noEquals_quote quote

/-- A comparison of strings. -/
theorem succeeds_comparison {value : Grammar} (rel : Relation) (quote : Quote)
    {s : List UInt8} {ts : List Action} (hgap : Gap gap)
    (hvalue : Succeeds env value Anything (quotedText quote s ++ r) r ts
      Anything) :
    Succeeds env (Grammar.seqs Grammar.relational [Grammar.sp, value]) A
      (ascii rel.text ++ (gap ++ (quotedText quote s ++ r))) r
      (Action.setOp rel.op :: ts) Anything :=
  succeeds_seq
    (succeeds_relational rel hgap (noSpace_quoted quote s r)
      (noEquals_gap hgap (noEquals_quoted quote s r)))
    (succeeds_seq (succeeds_sp_nil (noSpace_quoted quote s r)) hvalue)

theorem fails_comparison {value : Grammar} (rel : Relation) (quote : Quote)
    {s : List UInt8} (hgap : Gap gap)
    (hvalue : Fails env value Anything (quotedText quote s ++ r)) :
    Fails env (Grammar.seqs Grammar.relational [Grammar.sp, value]) A
      (ascii rel.text ++ (gap ++ (quotedText quote s ++ r))) :=
  fails_seq_right
    (succeeds_relational rel hgap (noSpace_quoted quote s r)
      (noEquals_gap hgap (noEquals_quoted quote s r)))
    (fails_seq_right (succeeds_sp_nil (noSpace_quoted quote s r)) hvalue)

/-- A comparison does not take the operator of a pattern. -/
theorem fails_comparison_pattern {value : Grammar} (rel : PatternRelation) :
    Fails env (Grammar.seqs Grammar.relational [Grammar.sp, value]) A
      (ascii rel.text ++ r) :=
  fails_seq_left (fails_of_rejects _ (by cases rel <;> decide))

/-- A pattern with or without its mark. -/
theorem succeeds_stringMatch (rel : PatternRelation) (literal : Bool)
    (quote : Quote) {s : List UInt8} (hgap : Gap gap)
    (hs : s.length <= 255) :
    Succeeds env Grammar.stringMatch A
      (ascii rel.text ++ (gap ++ (quotedText quote s ++
        (StringOperator.pattern rel literal).mark))) []
      ((StringOperator.pattern rel literal).actions (escapeQuotes quote s))
      Anything := by
  have hmod : Succeeds env (Peg.opt Grammar.stringMatchMod) Anything
      (StringOperator.pattern rel literal).mark []
      (if literal then [Action.setPatternModEsc] else []) Anything := by
    cases literal with
    | true =>
        exact succeeds_opt_some
          (succeeds_seq (succeeds_token (by decide)) (succeeds_act_const _))
    | false =>
        exact succeeds_opt_none (fails_seq_left (fails_lit (r := []) (by decide)))
  have hmatch := succeeds_seq
    (succeeds_patternOp (A := A) rel hgap (noSpace_quoted quote s _))
    (succeeds_seq (succeeds_sp_nil (noSpace_quoted quote s _))
      (succeeds_seq (succeeds_stringValue quote hs)
        (succeeds_seq hmod (succeeds_act_const Action.setMatchMod))))
  exact Succeeds.actions_eq hmatch (by simp [StringOperator.actions])

theorem fails_stringMatch (op : StringOperator) (quote : Quote)
    {s : List UInt8} (hgap : Gap gap) (hs : 255 < s.length) :
    Fails env Grammar.stringMatch A
      (op.text ++ (gap ++ (quotedText quote s ++ r))) := by
  cases op with
  | relation rel =>
      exact fails_seq_left (fails_of_rejects (v := ascii rel.text) _
        (by cases rel <;> decide))
  | pattern rel literal =>
      exact fails_seq_right
        (succeeds_patternOp rel hgap (noSpace_quoted quote s r))
        (fails_seq_right (succeeds_sp_nil (noSpace_quoted quote s r))
          (fails_seq_left (fails_stringValue quote hs)))

/-- A quote starts no number. -/
theorem fails_numericValue (quote : Quote) :
    Fails env Grammar.numericValue A (quote.byte :: r) := by
  have hquote : forall {p : Grammar} {A : Kept Nat -> Prop},
      rejects [quote.byte] p = true -> Fails env p A (quote.byte :: r) :=
    fun h => fails_of_rejects _ h
  apply fails_seq_left
  apply fails_capture
  apply fails_seq_right
    (succeeds_opt_none (hquote (by cases quote <;> decide)))
  exact fails_seq_left (hquote (by cases quote <;> decide))

/-- The comparison with a constant does not take a literal. -/
theorem fails_constant {constant : Grammar} (op : StringOperator)
    (quote : Quote) (s : List UInt8) (hgap : Gap gap)
    (hconstant : rejects [quote.byte] constant = true) :
    Fails env (Grammar.seqs (Grammar.alts Grammar.opEq [Grammar.opNe])
      [Grammar.sp, constant]) A
      (op.text ++ (gap ++ (quotedText quote s ++ r))) := by
  have hrest : Fails env (Peg.seq Grammar.sp constant) Anything
      (quotedText quote s ++ r) :=
    fails_seq_right (succeeds_sp_nil (noSpace_quoted quote s r))
      (fails_of_rejects (r := (escapeQuotes quote s ++ [quote.byte]) ++ r)
        constant hconstant)
  have hother : forall {v : List UInt8} {A : Kept Nat -> Prop},
      rejects v (Grammar.alts Grammar.opEq [Grammar.opNe]) = true ->
        Fails env (Grammar.seqs (Grammar.alts Grammar.opEq [Grammar.opNe])
          [Grammar.sp, constant]) A
          (v ++ (gap ++ (quotedText quote s ++ r))) :=
    fun h => fails_seq_left (fails_of_rejects _ h)
  have hop : forall {s : String} {op : MatchOperation} {A : Kept Nat -> Prop}
      {r : List UInt8}, NoSpace r ->
        Succeeds env (Grammar.opRule s op) A (ascii s ++ (gap ++ r)) r
          [Action.setOp op] Anything :=
    fun h => (succeeds_opRule hgap h).anything
  have hspace := noSpace_quoted quote s r
  match op with
  | StringOperator.relation Relation.eq =>
      exact fails_seq_right (succeeds_alt_left (hop hspace)) hrest
  | StringOperator.relation Relation.ne =>
      exact fails_seq_right (succeeds_alt_right
        (fails_of_rejects (v := ascii "!=") Grammar.opEq (by decide))
        (hop hspace)) hrest
  | StringOperator.relation Relation.gte => exact hother (by decide)
  | StringOperator.relation Relation.gt => exact hother (by decide)
  | StringOperator.relation Relation.lte => exact hother (by decide)
  | StringOperator.relation Relation.lt => exact hother (by decide)
  | StringOperator.pattern PatternRelation.is _ =>
      exact hother (v := ascii "=~") (by decide)
  | StringOperator.pattern PatternRelation.isNot _ =>
      exact hother (v := ascii "!~") (by decide)

/-!
## Subjects
-/

inductive StringHeader where
  | type | logger | hostname | envVersion | payload
  deriving DecidableEq

namespace StringHeader

def text : StringHeader -> String
  | type => "Type"
  | logger => "Logger"
  | hostname => "Hostname"
  | envVersion => "EnvVersion"
  | payload => "Payload"

def id : StringHeader -> Nat
  | type => lsbPbType
  | logger => lsbPbLogger
  | hostname => lsbPbHostname
  | envVersion => lsbPbEnvVersion
  | payload => lsbPbPayload

end StringHeader

/-- An index that the grammar has a text for. -/
structure Index where
  n : Nat
  lt : n < 256
  not_gap : ¬ IndexGap n

/-- The indices that are written behind the name of a field. -/
inductive Indices where
  | none
  | field (fi : Index)
  | array (fi ai : Index)

namespace Indices

def text : Indices -> List UInt8
  | none => []
  | field fi => 0x5b :: (indexText fi.n ++ [0x5d])
  | array fi ai =>
      0x5b :: (indexText fi.n ++ (0x5d :: (0x5b :: (indexText ai.n ++ [0x5d]))))

def fi : Indices -> Option (List UInt8)
  | none => Option.none
  | field fi => some (indexText fi.n)
  | array fi _ => some (indexText fi.n)

def ai : Indices -> Option (List UInt8)
  | none => Option.none
  | field _ => Option.none
  | array _ ai => some (indexText ai.n)

end Indices

/-- What a test compares with a string. -/
inductive StringSubject where
  | header (h : StringHeader)
  | uuid
  | field (name : List UInt8) (h : 0x5d ∉ name) (indices : Indices)

namespace StringSubject

def text : StringSubject -> List UInt8
  | header h => ascii h.text
  | uuid => ascii "Uuid"
  | field name _ indices => ascii "Fields[" ++ (name ++ (0x5d :: indices.text))

/-- The form of a test of the subject. -/
def form (body : FlatActions) : StringSubject -> TestForm
  | header h => TestForm.header
      ⟨Action.setId (UInt8.ofNat h.id) :: body.1,
        List.forall_mem_cons.mpr ⟨trivial, body.2⟩⟩
  | uuid => TestForm.header
      ⟨Action.setId (UInt8.ofNat lsbPbUuid) :: body.1,
        List.forall_mem_cons.mpr ⟨trivial, body.2⟩⟩
  | field name _ indices => TestForm.field name indices.fi indices.ai body

end StringSubject

/-- A test with a place for a literal. -/
structure StringContext where
  subject : StringSubject
  before : List UInt8
  before_gap : Gap before
  op : StringOperator
  behind : List UInt8
  behind_gap : Gap behind

namespace StringContext

/-- The comparison with a literal. -/
def comparison (c : StringContext) (quote : Quote)
    (s : List UInt8) : List UInt8 :=
  c.op.text ++ (c.behind ++ (quotedText quote s ++ c.op.mark))

/-- The source text with a literal. -/
def source (c : StringContext) (quote : Quote)
    (s : List UInt8) : List UInt8 :=
  c.subject.text ++ (c.before ++ c.comparison quote s)

def body (c : StringContext) (quote : Quote) (s : List UInt8) : FlatActions :=
  ⟨c.op.actions (escapeQuotes quote s), c.op.actions_flat _⟩

end StringContext

section

variable (c : StringContext) (quote : Quote) {s : List UInt8}

theorem noSpace_comparison : NoSpace (c.comparison quote s) := by
  unfold StringContext.comparison
  match c.op with
  | StringOperator.relation rel =>
      cases rel <;> exact noSpace_cons (by decide)
  | StringOperator.pattern rel _ =>
      cases rel <;> exact noSpace_cons (by decide)

/-- What follows a field is no index. -/
theorem not_bracket_comparison :
    (c.before ++ c.comparison quote s).head? ≠ some 0x5b := by
  intro hbracket
  cases hbefore : c.before with
  | nil =>
      rw [hbefore, List.nil_append] at hbracket
      revert hbracket
      unfold StringContext.comparison
      match c.op with
      | StringOperator.relation rel => cases rel <;> exact nofun
      | StringOperator.pattern rel _ => cases rel <;> exact nofun
  | cons b rest =>
      rw [hbefore, List.cons_append, List.head?_cons, Option.some_inj]
        at hbracket
      have hspace := c.before_gap b (hbefore ▸ List.mem_cons_self)
      rw [hbracket] at hspace
      revert hspace
      decide

/-- The alternatives behind a subject, given those that take a literal. -/
theorem succeeds_alternatives {value other : Grammar} (hs : s.length <= 255)
    (hvalue : forall r, Succeeds env value Anything (quotedText quote s ++ r) r
      [Action.setStringValue (escapeQuotes quote s)] Anything)
    (hother : forall {r : List UInt8} {ts : List Action},
      Succeeds env Grammar.stringMatch Anything r [] ts Anything ->
      Succeeds env other Anything r [] ts Anything) :
    Succeeds env (Peg.alt
      (Grammar.seqs Grammar.relational [Grammar.sp, value]) other) A
      (c.comparison quote s) [] (c.body quote s).1 Anything := by
  rcases c with ⟨_, _, _, _ | _, behind, hbehind⟩
  · exact succeeds_alt_left
      (succeeds_comparison _ quote hbehind (hvalue []))
  · exact succeeds_alt_right (fails_comparison_pattern _)
      (hother (succeeds_stringMatch _ _ quote hbehind hs))

theorem fails_alternatives {value other : Grammar}
    (hvalue : forall r, Fails env value Anything (quotedText quote s ++ r))
    (hother : Fails env other Anything (c.comparison quote s)) :
    Fails env (Peg.alt
      (Grammar.seqs Grammar.relational [Grammar.sp, value]) other) A
      (c.comparison quote s) := by
  apply fails_alt _ hother
  rcases c with ⟨_, _, _, _ | _, behind, hbehind⟩
  · exact fails_comparison _ quote hbehind (hvalue [])
  · exact fails_comparison_pattern _

/-!
## Tests
-/

theorem succeeds_stringHeaders (h : StringHeader) :
    Succeeds env Grammar.stringHeaders A (ascii h.text ++ r) r
      [Action.setId (UInt8.ofNat h.id)] Anything := by
  have hname : forall {s : String} {id : Nat} {A : Kept Nat -> Prop},
      Succeeds env (Grammar.seqs (Grammar.token s) [Grammar.setId id]) A
        (ascii s ++ r) r [Action.setId (UInt8.ofNat id)] Anything :=
    (succeeds_seq (succeeds_lit _) (succeeds_act_const _)).anything
  have hother : forall {s : String} {id : Nat} {A : Kept Nat -> Prop},
      incomparable (ascii s) (ascii h.text) = true ->
        Fails env (Grammar.seqs (Grammar.token s) [Grammar.setId id]) A
          (ascii h.text ++ r) :=
    fun h => fails_seq_left (fails_lit_of_incomparable h)
  cases h with
  | type => exact succeeds_alt_left hname
  | logger =>
      exact succeeds_alt_right (hother (by decide)) (succeeds_alt_left hname)
  | hostname =>
      exact succeeds_alt_right (hother (by decide))
        (succeeds_alt_right (hother (by decide)) (succeeds_alt_left hname))
  | envVersion =>
      exact succeeds_alt_right (hother (by decide))
        (succeeds_alt_right (hother (by decide))
          (succeeds_alt_right (hother (by decide)) (succeeds_alt_left hname)))
  | payload =>
      exact succeeds_alt_right (hother (by decide))
        (succeeds_alt_right (hother (by decide))
          (succeeds_alt_right (hother (by decide))
            (succeeds_alt_right (hother (by decide)) hname)))

theorem succeeds_optionalStringHeaders (h : StringHeader)
    (hs : s.length <= 255) :
    Succeeds env Grammar.optionalStringHeaders A
      (ascii h.text ++ (c.before ++ c.comparison quote s)) []
      (Action.setId (UInt8.ofNat h.id) :: (c.body quote s).1) Anything :=
  succeeds_seq (succeeds_stringHeaders h)
    (succeeds_seq (succeeds_sp c.before_gap (noSpace_comparison c quote))
      (succeeds_alternatives c quote hs
        (fun _ => succeeds_stringValue quote hs) succeeds_alt_left))

/-- Neither the value nor any other alternative takes a long literal. -/
theorem fails_optionalStringHeaders (h : StringHeader)
    (hs : 255 < s.length) :
    Fails env Grammar.optionalStringHeaders A
      (ascii h.text ++ (c.before ++ c.comparison quote s)) := by
  apply fails_seq_right (succeeds_stringHeaders h)
  apply fails_seq_right
    (succeeds_sp c.before_gap (noSpace_comparison c quote))
  apply fails_alternatives c quote (fun _ => fails_stringValue quote hs)
  apply fails_alt (fails_stringMatch c.op quote c.behind_gap hs)
  apply fails_constant c.op quote s c.behind_gap
  cases quote <;> decide

theorem succeeds_uuid (hs : s.length <= 255) :
    Succeeds env Grammar.uuid A
      (ascii "Uuid" ++ (c.before ++ c.comparison quote s)) []
      (Action.setId (UInt8.ofNat lsbPbUuid) :: (c.body quote s).1) Anything :=
  succeeds_seq (succeeds_lit _)
    (succeeds_seq (succeeds_act_const _)
      (succeeds_seq (succeeds_sp c.before_gap (noSpace_comparison c quote))
        (succeeds_alternatives c quote hs
          (fun _ => succeeds_stringValue quote hs) (fun h => h))))

theorem fails_uuid (hs : 255 < s.length) :
    Fails env Grammar.uuid A
      (ascii "Uuid" ++ (c.before ++ c.comparison quote s)) := by
  apply fails_seq_right (succeeds_lit (A := A) _)
  apply fails_seq_right (succeeds_act_const _)
  apply fails_seq_right
    (succeeds_sp c.before_gap (noSpace_comparison c quote))
  exact fails_alternatives c quote (fun _ => fails_stringValue quote hs)
    (fails_stringMatch c.op quote c.behind_gap hs)

/-- The field and its indices in front of the comparison. -/
theorem succeeds_indexed {name : List UInt8} (hname : 0x5d ∉ name)
    (indices : Indices) :
    Succeeds env Grammar.fields A
      (ascii "Fields[" ++ (name ++ (0x5d ::
        (indices.text ++ (c.before ++ c.comparison quote s)))))
      (c.before ++ c.comparison quote s)
      (fieldActions name indices.fi indices.ai) Anything := by
  have hend := not_bracket_comparison c quote (s := s)
  have hnone : forall (count : Nat) (A : Kept Nat -> Prop), Succeeds env
      (optIndex count) A (c.before ++ c.comparison quote s)
      (c.before ++ c.comparison quote s) (indexActions count none) Anything :=
    fun count _ => succeeds_optIndex_none count hend
  cases indices with
  | none => exact succeeds_fields hname (hnone 2) (hnone 1)
  | field fi =>
      have htext : (Indices.field fi).text ++
          (c.before ++ c.comparison quote s) = 0x5b :: (indexText fi.n ++
            (0x5d :: (c.before ++ c.comparison quote s))) := by
        simp [Indices.text]
      rw [htext]
      exact succeeds_fields hname
        (fun _ => succeeds_optIndex 2 fi.lt fi.not_gap _) (hnone 1)
  | array fi ai =>
      have htext : (Indices.array fi ai).text ++
          (c.before ++ c.comparison quote s) = 0x5b :: (indexText fi.n ++
            (0x5d :: (0x5b :: (indexText ai.n ++
              (0x5d :: (c.before ++ c.comparison quote s)))))) := by
        simp [Indices.text]
      rw [htext]
      exact succeeds_fields hname
        (fun _ => succeeds_optIndex 2 fi.lt fi.not_gap _)
        (fun _ => succeeds_optIndex 1 ai.lt ai.not_gap _)

theorem succeeds_fieldTest {name : List UInt8} (hname : 0x5d ∉ name)
    (indices : Indices) (hs : s.length <= 255) :
    Succeeds env Grammar.fieldTest A
      (ascii "Fields[" ++ (name ++ (0x5d ::
        (indices.text ++ (c.before ++ c.comparison quote s))))) []
      (fieldActions name indices.fi indices.ai ++ (c.body quote s).1)
      Anything :=
  succeeds_seq (succeeds_indexed c quote hname indices)
    (succeeds_seq (succeeds_sp c.before_gap (noSpace_comparison c quote))
      (succeeds_alternatives c quote hs
        (fun _ => succeeds_alt_left (succeeds_stringValue quote hs))
        succeeds_alt_left))

theorem fails_fieldTest {name : List UInt8} (hname : 0x5d ∉ name)
    (indices : Indices) (hs : 255 < s.length) :
    Fails env Grammar.fieldTest A
      (ascii "Fields[" ++ (name ++ (0x5d ::
        (indices.text ++ (c.before ++ c.comparison quote s))))) := by
  apply fails_seq_right (succeeds_indexed c quote hname indices)
  apply fails_seq_right
    (succeeds_sp c.before_gap (noSpace_comparison c quote))
  apply fails_alternatives c quote
  · intro r
    exact fails_alt (fails_stringValue quote hs) (fails_numericValue quote)
  · apply fails_alt (fails_stringMatch c.op quote c.behind_gap hs)
    apply fails_constant c.op quote s c.behind_gap
    cases quote <;> decide

theorem source_field {name : List UInt8} {h : 0x5d ∉ name} {indices : Indices}
    (hc : c.subject = StringSubject.field name h indices) :
    c.source quote s = ascii "Fields[" ++ (name ++ (0x5d ::
      (indices.text ++ (c.before ++ c.comparison quote s)))) := by
  rw [StringContext.source, hc]
  simp [StringSubject.text]

theorem succeeds_source (hs : s.length <= 255) :
    Succeeds env Grammar.test Anything (c.source quote s) []
      (c.subject.form (c.body quote s)).actions Anything := by
  apply succeeds_test
  cases hsubject : c.subject with
  | header h =>
      have hother : forall {p : Grammar} {A : Kept Nat -> Prop},
          rejects (ascii h.text) p = true ->
            Fails env p A (c.source quote s) := by
        intro p A hp
        rw [StringContext.source, hsubject]
        exact fails_of_rejects p hp
      apply succeeds_alt_right (hother (by cases h <;> decide))
      apply succeeds_alt_right (hother (by cases h <;> decide))
      apply succeeds_alt_left
      rw [StringContext.source, hsubject]
      exact succeeds_optionalStringHeaders c quote h hs
  | uuid =>
      apply succeeds_alt_left
      rw [StringContext.source, hsubject]
      exact succeeds_uuid c quote hs
  | field name hname indices =>
      rw [source_field c quote hsubject]
      apply succeeds_alt_right (fails_of_rejects _ (by decide))
      apply succeeds_alt_right (fails_of_rejects _ (by decide))
      apply succeeds_alt_right (fails_of_rejects _ (by decide))
      apply succeeds_alt_right (fails_of_rejects _ (by decide))
      apply succeeds_alt_right (fails_of_rejects _ (by decide))
      apply succeeds_alt_left
      exact succeeds_fieldTest c quote hname indices hs

theorem fails_source (hs : 255 < s.length) :
    Fails env Grammar.test A (c.source quote s) := by
  apply fails_seq_left
  cases hsubject : c.subject with
  | header h =>
      have hother : forall {p : Grammar} {A : Kept Nat -> Prop},
          rejects (ascii h.text) p = true ->
            Fails env p A (c.source quote s) := by
        intro p A hp
        rw [StringContext.source, hsubject]
        exact fails_of_rejects p hp
      apply fails_alt (hother (by cases h <;> decide))
      apply fails_alt (hother (by cases h <;> decide))
      refine fails_alt ?_ (hother (by cases h <;> decide))
      rw [StringContext.source, hsubject]
      exact fails_optionalStringHeaders c quote h hs
  | uuid =>
      rw [StringContext.source, hsubject]
      exact fails_alt (fails_uuid c quote hs) (fails_of_rejects _ (by decide))
  | field name hname indices =>
      rw [source_field c quote hsubject]
      apply fails_alt (fails_of_rejects _ (by decide))
      apply fails_alt (fails_of_rejects _ (by decide))
      apply fails_alt (fails_of_rejects _ (by decide))
      apply fails_alt (fails_of_rejects _ (by decide))
      apply fails_alt (fails_of_rejects _ (by decide))
      exact fails_alt (fails_fieldTest c quote hname indices hs)
        (fails_of_rejects _ (by decide))

end

/-!
## The literal of the node
-/

/-- The value of the node is the literal with its length. -/
structure KeepsLiteral (mn : MatchNode) (s : List UInt8) : Prop where
  valType_eq : mn.valType = MatchType.typeString
  val_eq : mn.val = MatchValue.s s
  valLen_eq : mn.valLen.toNat = s.length

theorem setMatchMod_value (mn : MatchNodeTmp) :
    (setMatchMod mn).valType = mn.valType ∧
      (setMatchMod mn).valLen = mn.valLen ∧
      (setMatchMod mn).val = mn.val := by
  unfold setMatchMod
  split <;> exact ⟨rfl, rfl, rfl⟩

/-- The actions of an operator leave the unescaped text in the node. -/
theorem yyDone_stringActions (op : StringOperator) (value : List UInt8)
    (ctx : Context) :
    (yyDone (op.actions value) ctx).mn.valType = MatchType.typeString ∧
      (yyDone (op.actions value) ctx).mn.valLen =
        UInt8.ofNat (unescapeQuotes value).length ∧
      (yyDone (op.actions value) ctx).mn.val =
        MatchValue.s (unescapeQuotes value) := by
  match op with
  | StringOperator.relation rel => exact ⟨rfl, rfl, rfl⟩
  | StringOperator.pattern rel true => exact setMatchMod_value _
  | StringOperator.pattern rel false => exact setMatchMod_value _

theorem copyNode_literal {mn : MatchNodeTmp} {s : List UInt8}
    (hs : s.length <= 255)
    (h : mn.valType = MatchType.typeString ∧
      mn.valLen = UInt8.ofNat s.length ∧ mn.val = MatchValue.s s) :
    KeepsLiteral (copyNode 0 mn) s := by
  rcases h with ⟨htype, hlen, hval⟩
  have htoNat : (UInt8.ofNat s.length).toNat = s.length :=
    UInt8.toNat_ofNat_of_lt' (Nat.lt_succ_of_le hs)
  constructor
  · exact htype
  · dsimp only [copyNode]
    rw [htype, hval, hlen, htoNat]
    exact congrArg MatchValue.s List.take_length
  · dsimp only [copyNode]
    rw [htype, hlen]
    exact htoNat

/-- Every subject has the literal in its node. -/
theorem node_literal (c : StringContext) (quote : Quote) {s : List UInt8}
    (hs : s.length <= 255) :
    KeepsLiteral (copyNode 0 ((c.subject.form (c.body quote s)).node 0 0)) s := by
  have hvalue := yyDone_stringActions c.op (escapeQuotes quote s)
  rw [unescapeQuotes_escapeQuotes] at hvalue
  apply copyNode_literal hs
  cases c.subject with
  | header h => exact hvalue _
  | uuid => exact hvalue _
  | field name hname indices => exact hvalue _

theorem source_head (c : StringContext) (quote : Quote) (s : List UInt8) :
    NoSpace (c.source quote s) ∧ (c.source quote s).head? ≠ some 0x28 := by
  have hhead : exists b rest, c.source quote s = b :: rest ∧
      isSpace b = false ∧ b ≠ 0x28 := by
    unfold StringContext.source
    cases c.subject with
    | header h => cases h <;> exact ⟨_, _, rfl, by decide, by decide⟩
    | uuid => exact ⟨_, _, rfl, by decide, by decide⟩
    | field name hname indices => exact ⟨_, _, rfl, by decide, by decide⟩
  rcases hhead with ⟨b, rest, hsource, hspace, hopen⟩
  rw [hsource]
  refine ⟨noSpace_cons hspace, ?_⟩
  rw [List.head?_cons, ne_eq, Option.some_inj]
  exact hopen

/--
A literal of at most 255 bytes is in the compiled node as it was before it was
quoted; a longer one is an error.
-/
theorem lsbCreateMessageMatcher_literal (c : StringContext) (quote : Quote)
    (s : List UInt8) :
    (s.length <= 255 -> exists mm mn,
      lsbCreateMessageMatcher (c.source quote s) = some mm ∧
        mm.testNodes = [mn] ∧ KeepsLiteral mn s) ∧
    (255 < s.length ->
      lsbCreateMessageMatcher (c.source quote s) = none) := by
  constructor
  · intro hs
    have hcompiled : exists mm,
        lsbCreateMessageMatcher (c.source quote s) = some mm ∧
          mm.testNodes =
            [copyNode 0 ((c.subject.form (c.body quote s)).node 0 0)] :=
      compiled_of_succeeds (fun _ _ => succeeds_source c quote hs)
    rcases hcompiled with ⟨mm, hcreate, hnodes⟩
    exact ⟨mm, _, hcreate, hnodes, node_literal c quote hs⟩
  · intro hs
    rcases source_head c quote s with ⟨hspace, hopen⟩
    exact lsbCreateMessageMatcher_eq_none hspace hopen
      (fun _ => fails_source c quote hs)

/-- The context of `Type =~ '…'%`. -/
def typePattern : StringContext where
  subject := StringSubject.header StringHeader.type
  before := ascii " "
  before_gap := gap_space
  op := StringOperator.pattern PatternRelation.is true
  behind := ascii " "
  behind_gap := gap_space

/-- The literal `\'` between single quotes. -/
theorem lsbCreateMessageMatcher_literal_escaped :
    (2 <= 255 -> exists mm mn,
      lsbCreateMessageMatcher (ascii "Type =~ '\\\\\\''%") = some mm ∧
        mm.testNodes = [mn] ∧ KeepsLiteral mn (ascii "\\'")) ∧
    (255 < 2 ->
      lsbCreateMessageMatcher (ascii "Type =~ '\\\\\\''%") = none) :=
  lsbCreateMessageMatcher_literal typePattern Quote.single (ascii "\\'")

end Matcher
end LuaSandbox
