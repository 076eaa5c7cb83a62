import LuaSandbox.Matcher.SourceText

/-!
# Field references

What a test of `Fields[name][fi][ai]` compiles to: the grammar has no text for
some indices, and the length of the name is kept in a byte.
-/

namespace LuaSandbox
namespace Matcher

open Foundation Util
open Peg

variable {env : Rule -> Parser Nat Action} {A : Kept Nat -> Prop}

/-!
## Indices
-/

/-- The numbers from 200 to 249 that end in a digit above five. -/
def IndexGap (n : Nat) : Prop := 200 <= n ∧ n <= 249 ∧ 6 <= n % 10

instance (n : Nat) : Decidable (IndexGap n) :=
  inferInstanceAs (Decidable (_ ∧ _ ∧ _))

def indexText (n : Nat) : List UInt8 := ascii (toString n)

/-- The digit that the grammar leaves over. -/
def leftDigit (n : Nat) : List UInt8 :=
  if IndexGap n then [UInt8.ofNat (0x30 + n % 10)] else []

theorem zeroTo255_alone : forall n, n < 256 ->
    (denote (fun _ _ k => (none, k)) Grammar.zeroTo255 (indexText n)
      ⟨[], [], 0⟩).1 = some (leftDigit n, []) := by
  decide +kernel

theorem atoi_indexText : forall n, n < 256 -> atoi (indexText n) = n := by
  decide +kernel

theorem zeroTo255_avoids : Avoids [0x5d] false Grammar.zeroTo255 := by
  repeat' apply And.intro
  all_goals
    intro b hb
    cases List.mem_singleton.mp hb
    decide

/-- In front of the bracket the grammar takes the digits of an index, up to a
last one that it has no rule for. -/
theorem succeeds_zeroTo255 {n : Nat} (hn : n < 256) (r : List UInt8) :
    Succeeds env Grammar.zeroTo255 A (indexText n ++ (0x5d :: r))
      (leftDigit n ++ (0x5d :: r)) [] Anything := by
  have hfollow : forall b, (0x5d :: r).head? = some b -> b ∈ [0x5d] := by
    intro b hb
    cases hb
    exact List.mem_singleton.mpr rfl
  intro k _
  have hwindowed : Windowed env _ (0x5d :: r) _ false _ Grammar.zeroTo255 :=
    windowed_of_avoids hfollow shrinks_none Grammar.zeroTo255 false zeroTo255_avoids
  have hwindow := hwindowed (indexText n) k ⟨[], [], 0⟩ (fun h => by cases h)
  have halone := zeroTo255_alone n hn
  generalize denote _ Grammar.zeroTo255 (indexText n) ⟨[], [], 0⟩ = w
    at hwindow halone
  generalize hfull : denote env Grammar.zeroTo255 _ k = f at hwindow ⊢
  cases hwindow with
  | fails kf kw => cases halone
  | within r1 ts kf kw hk =>
      cases halone
      exact ⟨kf, rfl, trivial⟩
  | beyond x kf w hlt htight hstrict => exact absurd rfl htight

theorem leftDigit_nil {n : Nat} (h : ¬ IndexGap n) : leftDigit n = [] :=
  if_neg h

theorem succeeds_index {n : Nat} (hn : n < 256) (hgap : ¬ IndexGap n)
    (r : List UInt8) :
    Succeeds env Grammar.index A (0x5b :: (indexText n ++ (0x5d :: r))) r
      [Action.atoi (indexText n)] Anything := by
  have hdigits : Succeeds env Grammar.zeroTo255 Anything _ _ _ _ :=
    succeeds_zeroTo255 hn r
  rw [leftDigit_nil hgap, List.nil_append] at hdigits
  exact (succeeds_seq (succeeds_token (by decide))
    (succeeds_seq (succeeds_capture hdigits)
      (succeeds_seq (succeeds_token (by decide))
        (succeeds_act Action.atoi _)))).anything

theorem leftDigit_ne (n : Nat) : 0x5d ≠ UInt8.ofNat (0x30 + n % 10) := by
  have hdigit : n % 10 < 10 := Nat.mod_lt n (by decide)
  generalize n % 10 = d at hdigit ⊢
  revert d
  decide

/-- An index of the gap is not an index. -/
theorem fails_index {n : Nat} (hn : n < 256) (hgap : IndexGap n)
    (r : List UInt8) :
    Fails env Grammar.index A (0x5b :: (indexText n ++ (0x5d :: r))) := by
  have hdigits : Succeeds env Grammar.zeroTo255 Anything _ _ _ _ :=
    succeeds_zeroTo255 hn r
  rw [leftDigit, if_pos hgap] at hdigits
  exact fails_seq_right (B := A) (succeeds_token (by decide))
    (fails_seq_right (succeeds_capture_rest hdigits)
      (fails_seq_left (fails_token (by decide) (leftDigit_ne n))))

/-!
## The reference
-/

/-- The text of a test of a field, with what follows the reference. -/
def fieldSource (name : List UInt8) (fi ai : Nat)
    (comparison : List UInt8) : List UInt8 :=
  ascii "Fields[" ++ (name ++ (0x5d :: (0x5b :: (indexText fi ++
    (0x5d :: (0x5b :: (indexText ai ++ (0x5d :: comparison))))))))

variable {name v : List UInt8} {fi ai : Nat}

theorem succeeds_name (hname : 0x5d ∉ name) (r : List UInt8) :
    Succeeds env (Peg.star nameChar) A (name ++ (0x5d :: r)) (0x5d :: r) []
      A := by
  apply succeeds_star_members
  · intro b hb
    exact bne_iff_ne.mpr (fun h => hname (h ▸ hb))
  · intro b hb
    cases hb
    decide

/-- An index that may be missing. -/
def optIndex (count : Nat) : Grammar :=
  Peg.opt (Grammar.seqs Grammar.index [Grammar.act (Action.yySet count)])

theorem succeeds_optIndex {n : Nat} (count : Nat) (hn : n < 256)
    (hgap : ¬ IndexGap n) (r : List UInt8) :
    Succeeds env (optIndex count) A (0x5b :: (indexText n ++ (0x5d :: r))) r
      (indexActions count (some (indexText n))) Anything :=
  succeeds_opt_some
    (succeeds_seq (succeeds_index hn hgap r) (succeeds_act_const _))

theorem succeeds_optIndex_gap {n : Nat} (count : Nat) (hn : n < 256)
    (hgap : IndexGap n) (r : List UInt8) :
    Succeeds env (optIndex count) A (0x5b :: (indexText n ++ (0x5d :: r)))
      (0x5b :: (indexText n ++ (0x5d :: r))) [] Anything :=
  succeeds_opt_none (fails_seq_left (fails_index hn hgap r))

theorem succeeds_optIndex_none (count : Nat) {r : List UInt8}
    (hr : r.head? ≠ some 0x5b) :
    Succeeds env (optIndex count) A r r (indexActions count none) Anything := by
  apply succeeds_opt_none
  apply fails_seq_left
  apply fails_seq_left
  cases r with
  | nil => exact fails_lit (by decide)
  | cons b rest =>
      exact fails_token (by decide) (fun hb => hr (hb ▸ rfl))

/-- The name and what the two indices take. -/
theorem succeeds_fields {r1 r2 r3 : List UInt8} {ts1 ts2 : List Action}
    (hname : 0x5d ∉ name)
    (hfield : forall A, Succeeds env (optIndex 2) A r1 r2 ts1 Anything)
    (harray : forall A, Succeeds env (optIndex 1) A r2 r3 ts2 Anything) :
    Succeeds env Grammar.fields A
      (ascii "Fields[" ++ (name ++ (0x5d :: r1))) r3
      ([Action.yyPush 2, Action.setField name] ++ ts1 ++ [Action.setFi] ++
        ts2 ++ [Action.setAi, Action.yyPop 2]) Anything := by
  have hopen : forall r, Succeeds env (Grammar.token "Fields[") A
      (ascii "Fields[" ++ r) r [] A :=
    fun _ => succeeds_lit (ascii "Fields[")
  have hclose : forall r, Succeeds env (Grammar.token "]") (TextIs name)
      (0x5d :: r) r [] (TextIs name) :=
    fun _ => succeeds_token (by decide)
  have hfields := succeeds_seq
    (succeeds_act_const (Action.yyPush 2))
    (succeeds_seq (hopen _)
      (succeeds_seq (succeeds_capture (succeeds_name hname _).anything)
        (succeeds_seq (hclose _)
          (succeeds_seq (succeeds_act Action.setField name)
            (succeeds_seq (hfield _)
              (succeeds_seq (succeeds_act_const Action.setFi)
                (succeeds_seq (harray _)
                  (succeeds_seq (succeeds_act_const Action.setAi)
                    (succeeds_act_const (Action.yyPop 2))))))))))
  exact Succeeds.actions_eq hfields (by simp)

/-- An index of the gap is left to the comparison. -/
theorem succeeds_fields_gap (hname : 0x5d ∉ name) (hfi : fi < 256)
    (hai : ai < 256) (hgap : IndexGap fi ∨ IndexGap ai) :
    exists r ts, Succeeds env Grammar.fields A (fieldSource name fi ai v)
      ([0x5b] ++ r) ts Anything := by
  by_cases hfgap : IndexGap fi
  · exact ⟨_, _, succeeds_fields hname
      (fun _ => succeeds_optIndex_gap 2 hfi hfgap _)
      (fun _ => succeeds_optIndex_gap 1 hfi hfgap _)⟩
  · have hagap : IndexGap ai := hgap.resolve_left hfgap
    exact ⟨_, _, succeeds_fields hname
      (fun _ => succeeds_optIndex 2 hfi hfgap _)
      (fun _ => succeeds_optIndex_gap 1 hai hagap _)⟩

theorem fails_fieldComparison (r : List UInt8) :
    Fails env fieldComparison A ([0x5b] ++ r) :=
  fails_seq_right (succeeds_sp_nil (A := A) (noSpace_cons (by decide)))
    (fails_of_rejects _ (by decide))

theorem fails_test_gap (hname : 0x5d ∉ name) (hfi : fi < 256)
    (hai : ai < 256) (hgap : IndexGap fi ∨ IndexGap ai) :
    Fails env Grammar.test A (fieldSource name fi ai v) := by
  have hrest : exists r ts, Succeeds env Grammar.fields Anything
      (fieldSource name fi ai v) ([0x5b] ++ r) ts Anything :=
    succeeds_fields_gap hname hfi hai hgap
  rcases hrest with ⟨r, ts, hfields⟩
  have hfield : Fails env Grammar.fieldTest Anything
      (fieldSource name fi ai v) :=
    fails_seq_right hfields (fails_fieldComparison r)
  have hopen : forall {p : Grammar} {A : Kept Nat -> Prop},
      rejects (ascii "Fields[") p = true ->
        Fails env p A (fieldSource name fi ai v) :=
    fun h => fails_of_rejects _ h
  apply fails_seq_left
  apply fails_alt (hopen (by decide))
  apply fails_alt (hopen (by decide))
  apply fails_alt (hopen (by decide))
  apply fails_alt (hopen (by decide))
  apply fails_alt (hopen (by decide))
  exact fails_alt hfield (hopen (by decide))

/-!
## The comparison
-/

/-- The grammar takes the text as what follows a field. -/
def Compares (v : List UInt8) : Prop :=
  exists (env : Rule -> Parser Nat Action) (k : Kept Nat)
    (ts : List Action) (k' : Kept Nat), Shrinks env ∧
      denote env fieldComparison v k = (some ([], ts), k')

/-- The action does not touch the name of the field. -/
def KeepsName (a : Action) : Prop :=
  forall ctx : Context, (a.run ctx).mn.id = ctx.mn.id ∧
    (a.run ctx).mn.var = ctx.mn.var ∧ (a.run ctx).mn.varLen = ctx.mn.varLen

theorem keepsName_setMatchMod : KeepsName Action.setMatchMod := by
  intro ctx
  change (setMatchMod ctx.mn).id = _ ∧ (setMatchMod ctx.mn).var = _ ∧
    (setMatchMod ctx.mn).varLen = _
  unfold setMatchMod
  split <;> exact ⟨rfl, rfl, rfl⟩

theorem fieldComparison_flat : Actions Action.Flat fieldComparison :=
  ⟨trivial, fieldValue_flat⟩

theorem fieldComparison_keepsName : Actions KeepsName fieldComparison := by
  repeat' apply And.intro
  all_goals first
    | trivial
    | exact fun _ _ => ⟨rfl, rfl, rfl⟩
    | exact fun _ => keepsName_setMatchMod

/-- The parse of a comparison depends on nothing before it. -/
theorem Compares.succeeds (h : Compares v) :
    exists body : FlatActions, (forall a, a ∈ body.1 -> KeepsName a) ∧
      forall env : Rule -> Parser Nat Action, Shrinks env ->
        Succeeds env fieldComparison Anything v [] body.1 Anything := by
  rcases h with ⟨env, k, ts, k', henv, hdenote⟩
  have hemits : Emits (fun _ _ => True) fieldComparison ts :=
    denote_emits (fun _ _ _ _ _ _ => trivial) fieldComparison hdenote
  refine ⟨⟨ts, emits_forall fieldComparison fieldComparison_flat hemits⟩,
    emits_forall fieldComparison fieldComparison_keepsName hemits, ?_⟩
  intro env' henv' kw _
  have hfollow : Follow [] := nofun
  have hwindow := fieldComparison_windowed hfollow henv henv' v k kw nofun
  rw [List.append_nil, hdenote] at hwindow
  rcases hwindow.whole with ⟨kw', hwhole⟩
  exact ⟨kw', hwhole, trivial⟩

theorem yyDone_keepsName (body : List Action) :
    (forall a, a ∈ body -> KeepsName a) -> forall ctx : Context,
      (yyDone body ctx).mn.id = ctx.mn.id ∧
        (yyDone body ctx).mn.var = ctx.mn.var ∧
        (yyDone body ctx).mn.varLen = ctx.mn.varLen := by
  induction body with
  | nil =>
      intro _ ctx
      exact ⟨rfl, rfl, rfl⟩
  | cons a rest ih =>
      intro h ctx
      rcases h a List.mem_cons_self ctx with ⟨hid, hvar, hlen⟩
      rcases ih (fun b hb => h b (List.mem_cons_of_mem a hb)) (a.run ctx) with
        ⟨hid', hvar', hlen'⟩
      exact ⟨hid'.trans hid, hvar'.trans hvar, hlen'.trans hlen⟩

/-!
## The node
-/

/-- What the evaluation of a field test looks up. -/
def MatchNode.readField (mem : Memory) (mn : MatchNode)
    (m : HekaMessage) : Option ReadValue :=
  match mn.u with
  | MatchIndex.off _ => none
  | MatchIndex.idx f a => lsbReadHekaField mem m mn.var f.toNat a.toNat

/-- The node looks at the field and the indices. -/
structure AddressesField (mn : MatchNode) (name : List UInt8)
    (fi ai : Nat) : Prop where
  fieldId_eq : mn.fieldId = UInt8.ofNat lsbPbFields
  var_eq : mn.var = name
  varLen_eq : mn.varLen.toNat = name.length
  u_eq : mn.u = MatchIndex.idx (UInt8.ofNat fi) (UInt8.ofNat ai)
  reads_eq : forall mem m,
    mn.readField mem m = lsbReadHekaField mem m name fi ai

/-- The form of a field test with both indices. -/
def indexedForm (name : List UInt8) (fi ai : Nat)
    (body : FlatActions) : TestForm :=
  TestForm.field name (some (indexText fi)) (some (indexText ai)) body

theorem ofInt_atoi_indexText {n : Nat} (hn : n < 256) :
    UInt8.ofInt (atoi (indexText n)) = UInt8.ofNat n := by
  have hmod : ((n : Int) % 2 ^ 8).toNat = n := by omega
  rw [atoi_indexText n hn, UInt8.ofInt, hmod]

/-- The compiled node keeps as much of the name as its length in a byte says. -/
theorem copyNode_indexedForm {body : FlatActions}
    (hbody : forall a, a ∈ body.1 -> KeepsName a) (hfi : fi < 256)
    (hai : ai < 256) :
    let mn := copyNode 0 ((indexedForm name fi ai body).node 0 0)
    mn.fieldId = UInt8.ofNat lsbPbFields ∧
      mn.var = name.take (name.length % 256) ∧
      mn.varLen.toNat = name.length % 256 ∧
      mn.u = MatchIndex.idx (UInt8.ofNat fi) (UInt8.ofNat ai) := by
  have hkept := yyDone_keepsName body.1 hbody { Context.init with
    mn := fieldNode name (atoi (indexText fi)) (atoi (indexText ai)) }
  have hindices := flatNode_keepsIndices body
  have hlogical := (indexedForm name fi ai body).node_isLogical 0 0
  change (flatNode body (fieldNode name (atoi (indexText fi))
    (atoi (indexText ai)))).op.isLogical = false at hlogical
  rcases hkept with ⟨hid, hvar, hlen⟩
  change (flatNode body _).id = UInt8.ofNat lsbPbFields at hid
  change (flatNode body _).var = name.take (UInt8.ofNat name.length).toNat
    at hvar
  change (flatNode body _).varLen = UInt8.ofNat name.length at hlen
  have hmod : (UInt8.ofNat name.length).toNat = name.length % 256 :=
    UInt8.toNat_ofNat'
  dsimp only [copyNode, indexedForm, TestForm.node, indexValue]
  simp only [Option.map_some, Option.getD_some]
  rw [hid, hlen, hvar, hmod, hlogical, hindices.fi_eq, hindices.ai_eq]
  refine ⟨rfl, ?_, hmod, ?_⟩
  · rw [if_pos rfl, List.take_take, Nat.min_self]
  · rw [if_neg Bool.false_ne_true, fieldNode, ofInt_atoi_indexText hfi,
      ofInt_atoi_indexText hai]

/-!
## Faithful references
-/

/-- Either the source is rejected because the name is too long, or it compiles
to a node that looks at the named field and the indices. -/
def FaithfulReference (name : List UInt8) (fi ai : Nat)
    (v : List UInt8) : Prop :=
  (255 < name.length ∧
    lsbCreateMessageMatcher (fieldSource name fi ai v) = none ∧
    exists short, 0x5d ∉ short ∧ short.length <= 255 ∧
      lsbCreateMessageMatcher (fieldSource short fi ai v) ≠ none) ∨
  exists mm mn, lsbCreateMessageMatcher (fieldSource name fi ai v) = some mm ∧
    mm.testNodes = [mn] ∧ AddressesField mn name fi ai

theorem fieldSource_gap (hname : 0x5d ∉ name) (hfi : fi < 256)
    (hai : ai < 256) (hgap : IndexGap fi ∨ IndexGap ai) :
    lsbCreateMessageMatcher (fieldSource name fi ai v) = none := by
  apply lsbCreateMessageMatcher_eq_none
  · exact noSpace_cons (r := (ascii "Fields[").tail ++ _) (by decide)
  · exact fun h => by cases h
  · intro env
    exact fails_test_gap hname hfi hai hgap

theorem fieldSource_compiles (hname : 0x5d ∉ name) (hfi : fi < 256)
    (hai : ai < 256) (hfgap : ¬ IndexGap fi) (hagap : ¬ IndexGap ai)
    (hv : Compares v) :
    exists mm mn, lsbCreateMessageMatcher (fieldSource name fi ai v) = some mm ∧
      mm.testNodes = [mn] ∧ mn.fieldId = UInt8.ofNat lsbPbFields ∧
      mn.var = name.take (name.length % 256) ∧
      mn.varLen.toNat = name.length % 256 ∧
      mn.u = MatchIndex.idx (UInt8.ofNat fi) (UInt8.ofNat ai) := by
  rcases hv.succeeds with ⟨body, hbody, hcompares⟩
  have htest : forall env : Rule -> Parser Nat Action, Shrinks env ->
      Succeeds env Grammar.test Anything (fieldSource name fi ai v) []
        (indexedForm name fi ai body).actions Anything := by
    intro env henv
    have hopen : forall {p : Grammar} {A : Kept Nat -> Prop},
        rejects (ascii "Fields[") p = true ->
          Fails env p A (fieldSource name fi ai v) :=
      fun h => fails_of_rejects _ h
    have hfields : Succeeds env Grammar.fields Anything
        (fieldSource name fi ai v) v _ Anything :=
      succeeds_fields hname (fun _ => succeeds_optIndex 2 hfi hfgap _)
        (fun _ => succeeds_optIndex 1 hai hagap _)
    have hfield : Succeeds env Grammar.fieldTest Anything
        (fieldSource name fi ai v) [] _ Anything :=
      succeeds_seq hfields (hcompares env henv)
    exact succeeds_test (succeeds_alt_right (hopen (by decide))
      (succeeds_alt_right (hopen (by decide))
        (succeeds_alt_right (hopen (by decide))
          (succeeds_alt_right (hopen (by decide))
            (succeeds_alt_right (hopen (by decide))
              (succeeds_alt_left hfield))))))
  rcases compiled_of_succeeds htest with ⟨mm, hcreate, hnodes⟩
  exact ⟨mm, _, hcreate, hnodes, copyNode_indexedForm hbody hfi hai⟩

/--
A reference is faithful exactly when the name has at most 255 bytes and the
grammar has a text for both indices.
-/
theorem faithfulReference_iff (name : List UInt8) (hname : 0x5d ∉ name)
    (fi ai : Nat) (hfi : fi <= 255) (hai : ai <= 255) (v : List UInt8)
    (hv : Compares v) :
    FaithfulReference name fi ai v <->
      name.length <= 255 ∧ ¬ IndexGap fi ∧ ¬ IndexGap ai := by
  have hfi := Nat.lt_succ_of_le hfi
  have hai := Nat.lt_succ_of_le hai
  by_cases hgap : IndexGap fi ∨ IndexGap ai
  · apply iff_of_false
    · rintro (⟨-, -, short, hshort, -, haccepted⟩ | ⟨mm, mn, hcreate, -⟩)
      · exact haccepted (fieldSource_gap hshort hfi hai hgap)
      · rw [fieldSource_gap hname hfi hai hgap] at hcreate
        cases hcreate
    · rintro ⟨-, hfgap, hagap⟩
      exact hgap.elim hfgap hagap
  · rw [not_or] at hgap
    rw [and_iff_left hgap]
    rcases fieldSource_compiles hname hfi hai hgap.1 hgap.2 hv with
      ⟨mm, mn, hcreate, hnodes, hid, hvar, hlen, hindices⟩
    constructor
    · rintro (⟨-, hnone, -⟩ | ⟨mm', mn', hcreate', hnodes', haddresses⟩)
      · rw [hcreate] at hnone
        cases hnone
      · rw [hcreate] at hcreate'
        cases hcreate'
        rw [hnodes] at hnodes'
        cases hnodes'
        have hwhole := haddresses.varLen_eq
        rw [hlen] at hwhole
        have := Nat.mod_lt name.length (show 256 > 0 by decide)
        omega
    · intro hle
      have hwhole : name.length % 256 = name.length :=
        Nat.mod_eq_of_lt (Nat.lt_succ_of_le hle)
      rw [hwhole] at hvar hlen
      rw [List.take_length] at hvar
      refine Or.inr ⟨mm, mn, hcreate, hnodes, hid, hvar, hlen, hindices, ?_⟩
      intro mem m
      unfold MatchNode.readField
      rw [hindices, hvar]
      dsimp only
      rw [UInt8.toNat_ofNat_of_lt' hfi, UInt8.toNat_ofNat_of_lt' hai]

theorem compares_string : Compares (ascii " == \"x\"") := by
  have hdenote : (denote (fun _ _ k => (none, k)) fieldComparison
      (ascii " == \"x\"") ⟨[], [], 0⟩).1 =
        some ([], [Action.setOp MatchOperation.opEq,
          Action.setStringValue (ascii "x")]) := by
    decide
  exact ⟨_, _, _, _, shrinks_none, Prod.ext hdenote rfl⟩

theorem faithfulReference_sample :
    FaithfulReference (ascii "id") 205 7 (ascii " == \"x\"") <->
      (ascii "id").length <= 255 ∧ ¬ IndexGap 205 ∧ ¬ IndexGap 7 :=
  faithfulReference_iff (ascii "id") (by decide) 205 7 (by decide) (by decide)
    (ascii " == \"x\"") compares_string

/-- `Fields[id][206][0] == "x"` is rejected. -/
theorem faithfulReference_gap :
    ¬ forall name : List UInt8, 0x5d ∉ name -> forall fi ai : Nat,
      fi <= 255 -> ai <= 255 -> forall v, Compares v ->
        FaithfulReference name fi ai v := by
  intro h
  have hnone : lsbCreateMessageMatcher
      (fieldSource (ascii "id") 206 0 (ascii " == \"x\"")) = none :=
    fieldSource_gap (by decide) (by decide) (by decide) (Or.inl (by decide))
  rcases h (ascii "id") (by decide) 206 0 (by decide) (by decide) _
    compares_string with ⟨hlong, -⟩ | ⟨mm, mn, hcreate, -⟩
  · exact absurd hlong (by decide)
  · rw [hnone] at hcreate
    cases hcreate

end Matcher
end LuaSandbox
