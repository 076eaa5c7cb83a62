import Mathlib.Data.List.TakeWhile
import LuaSandbox.Foundation.Peg.Depth
import LuaSandbox.Matcher.Expression
import LuaSandbox.Matcher.TestForm

/-!
# Reading expressions

What the parser accepts is the text of an expression, and the recorded actions
are those of its tests with the operators and parentheses between them.
-/

namespace LuaSandbox
namespace Matcher

open Foundation Util

/-!
## Texts of expressions
-/

/-- The end of an expression, an operator or a closing parenthesis. -/
def Follow (r : List UInt8) : Prop :=
  forall b, r.head? = some b -> b ∈ ascii "&|)"

/-- The text of a test as the grammar takes it, with its form. -/
structure TestText where
  source : List UInt8
  form : TestForm
  parsed : exists (env : Rule -> Peg.Parser Nat Action) (r : List UInt8)
    (k k' : Peg.Kept Nat), Peg.Shrinks env ∧ Follow r ∧
    Peg.denote env Grammar.test (source ++ r) k =
      (some (r, form.actions), k')

def TestText.actions (t : TestText) : List Action := t.form.actions

/-- A byte of white space. -/
def isSpace (b : UInt8) : Bool := (ascii " \r\n\t").contains b

/-- White space between tokens. -/
def Gap (s : List UInt8) : Prop :=
  forall b, b ∈ s -> isSpace b = true

theorem gap_nil : Gap [] := by
  intro b hb
  cases hb

namespace Expression

/-- A text with white space between its tokens spells an expression. -/
def Spells : {level : Level} -> Expression TestText level ->
    List UInt8 -> Prop
  | _, test t, s => s = t.source
  | _, group e, s => exists gap inner gap',
      s = ascii "(" ++ gap ++ inner ++ gap' ++ ascii ")" ∧
        Gap gap ∧ Gap gap' ∧ e.Spells inner
  | _, expr e, s => e.Spells s
  | _, and l r, s => exists left gap gap' right,
      s = left ++ gap ++ ascii "&&" ++ gap' ++ right ∧
        Gap gap ∧ Gap gap' ∧ l.Spells left ∧ r.Spells right
  | _, anded e, s => e.Spells s
  | _, or l r, s => exists left gap gap' right,
      s = left ++ gap ++ ascii "||" ++ gap' ++ right ∧
        Gap gap ∧ Gap gap' ∧ l.Spells left ∧ r.Spells right

/-- The actions recorded for an expression. -/
def actions : {level : Level} -> Expression TestText level -> List Action
  | _, test t => t.actions
  | _, group e =>
      Action.pushOp MatchOperation.opOpen ::
        (e.actions ++ [Action.popToParen])
  | _, expr e => e.actions
  | _, and l r =>
      l.actions ++ Action.pushOp MatchOperation.opAnd :: r.actions
  | _, anded e => e.actions
  | _, or l r => l.actions ++ Action.pushOp MatchOperation.opOr :: r.actions

/-- The number of operators. -/
def operators {alpha : Type} :
    {level : Level} -> Expression alpha level -> Nat
  | _, test _ => 0
  | _, group e => e.operators
  | _, expr e => e.operators
  | _, and l r => l.operators + r.operators + 1
  | _, anded e => e.operators
  | _, or l r => l.operators + r.operators + 1

theorem length_tests {alpha : Type} {level : Level}
    (e : Expression alpha level) : e.tests.length = e.operators + 1 := by
  induction e with
  | test a => rfl
  | group e ih => exact ih
  | expr e ih => exact ih
  | and l r ihl ihr =>
      simp only [tests, operators, List.length_append, ihl, ihr]
      omega
  | anded e ih => exact ih
  | or l r ihl ihr =>
      simp only [tests, operators, List.length_append, ihl, ihr]
      omega

end Expression

/-!
## The condition counter
-/

/--
Between two states of the counter at least `n` operators were counted, and as
many are let through.
-/
def Counts (n u u' : Nat) : Prop :=
  u + n <= u' ∧ (n = 0 ∨ u + n <= 127)

theorem Counts.zero {u u' : Nat} (h : u <= u') : Counts 0 u u' :=
  ⟨h, Or.inl rfl⟩

theorem Counts.add {n m u u1 u2 : Nat} (h1 : Counts n u u1)
    (h2 : Counts m u1 u2) : Counts (n + m) u u2 := by
  unfold Counts at *
  omega

theorem Counts.mono {n u u1 u2 : Nat} (h : Counts n u u1) (hle : u1 <= u2) :
    Counts n u u2 := by
  unfold Counts at *
  omega

/-!
## Tokens
-/

open Peg

variable {env : Rule -> Parser Nat Action}
variable {r r' : List UInt8} {k k' : Kept Nat} {ts : List Action}

/-- All white space is taken. -/
theorem sp_eq_some
    (h : denote env Grammar.sp r k = (some (r', ts), k')) :
    exists gap, Gap gap ∧ r = gap ++ r' ∧ ts = [] ∧ k' = k ∧
      forall b, r'.head? = some b -> isSpace b = false := by
  have hstar := denote_star_cls env isSpace r k
  rw [show denote env Grammar.sp r k = _ from hstar] at h
  cases h
  refine ⟨r.takeWhile isSpace, fun b hb => List.mem_takeWhile_imp hb,
    List.takeWhile_append_dropWhile.symm, rfl, rfl, fun b hb => ?_⟩
  have hnot := List.head?_dropWhile_not isSpace r
  rw [hb] at hnot
  exact hnot

theorem condCnt_eq_some
    (h : denote env Grammar.condCnt r k = (some (r', ts), k')) :
    r' = r ∧ ts = [] ∧ k'.user = k.user + 1 ∧ k.user + 1 <= 127 := by
  rcases check_eq_some.mp h with ⟨hcheck, rfl, rfl, rfl⟩
  refine ⟨rfl, rfl, rfl, ?_⟩
  have := of_decide_eq_true hcheck
  omega

/-- An operator is counted and recorded. -/
theorem operator_eq_some {word : String} {op : MatchOperation}
    (h : denote env (Grammar.seqs (Grammar.token word)
      [Grammar.condCnt, Grammar.act (Action.pushOp op), Grammar.sp]) r k =
        (some (r', ts), k')) :
    exists gap, Gap gap ∧ r = ascii word ++ gap ++ r' ∧
      ts = [Action.pushOp op] ∧ Counts 1 k.user k'.user := by
  rcases seq_eq_some.mp h with ⟨r1, ts1, k1, ts1', hword, h1, rfl⟩
  rcases seq_eq_some.mp h1 with ⟨r2, ts2, k2, ts2', hcount, h2, rfl⟩
  rcases seq_eq_some.mp h2 with ⟨r3, ts3, k3, ts4, hpush, hsp, rfl⟩
  rcases lit_eq_some.mp hword with ⟨rfl, rfl, rfl⟩
  rcases condCnt_eq_some hcount with ⟨rfl, rfl, huser, hle⟩
  rcases act_eq_some.mp hpush with ⟨rfl, rfl, rfl⟩
  rcases sp_eq_some hsp with ⟨gap, hgap, rfl, rfl, rfl, _⟩
  refine ⟨gap, hgap, by simp, rfl, ?_⟩
  unfold Counts
  omega

/-- A parenthesis is recorded. -/
theorem bracket_eq_some {word : String} {a : Action}
    (h : denote env (Grammar.seqs (Grammar.token word)
      [Grammar.act a, Grammar.sp]) r k = (some (r', ts), k')) :
    exists gap, Gap gap ∧ r = ascii word ++ gap ++ r' ∧ ts = [a] ∧ k' = k := by
  rcases seq_eq_some.mp h with ⟨r1, ts1, k1, ts1', hword, h1, rfl⟩
  rcases seq_eq_some.mp h1 with ⟨r2, ts2, k2, ts3, hact, hsp, rfl⟩
  rcases lit_eq_some.mp hword with ⟨rfl, rfl, rfl⟩
  rcases act_eq_some.mp hact with ⟨rfl, rfl, rfl⟩
  rcases sp_eq_some hsp with ⟨gap, hgap, rfl, rfl, rfl, _⟩
  exact ⟨gap, hgap, by simp, rfl, rfl⟩

/-!
## Tests
-/

theorem test_quiet : Quiet Grammar.test := by
  repeat' apply And.intro
  all_goals first
    | trivial
    | exact fun _ _ => rfl

/-- A test takes the white space behind it. -/
theorem test_not_space
    (h : denote env Grammar.test r k = (some (r', ts), k')) (b : UInt8)
    (hb : r'.head? = some b) : isSpace b = false := by
  rcases seq_eq_some.mp h with ⟨r1, ts1, k1, ts1', _, h1, rfl⟩
  rcases seq_eq_some.mp h1 with ⟨r2, ts2, k2, ts3, _, hsp, rfl⟩
  rcases sp_eq_some hsp with ⟨gap, hgap, rfl, rfl, rfl, hnot⟩
  exact hnot b hb

theorem test_form
    (h : denote env Grammar.test r k = (some (r', ts), k')) :
    exists form : TestForm, ts = form.actions :=
  emits_test (E := fun _ _ => True)
    (denote_emits (fun _ _ _ _ _ _ => trivial) _ h)

/-!
## Levels
-/

/-- A stretch of text, up to white space behind it, is an expression. -/
structure Reads {level : Level} (e : Expression TestText level)
    (r : List UInt8) (k : Kept Nat) (r' : List UInt8) (ts : List Action)
    (k' : Kept Nat) : Prop where
  spells : exists s gap, r = s ++ gap ++ r' ∧ Gap gap ∧ e.Spells s
  actions_eq : ts = e.actions
  counts : Counts e.operators k.user k'.user

theorem Gap.append {s t : List UInt8} (hs : Gap s) (ht : Gap t) :
    Gap (s ++ t) :=
  fun b hb => (List.mem_append.mp hb).elim (hs b) (ht b)

/-- White space behind an expression is passed over. -/
theorem Reads.sp {level : Level} {e : Expression TestText level}
    {r1 : List UInt8} {k1 : Kept Nat} {ts1 ts2 : List Action}
    (h : Reads e r k r1 ts1 k1)
    (hsp : denote env Grammar.sp r1 k1 = (some (r', ts2), k')) :
    Reads e r k r' (ts1 ++ ts2) k' := by
  rcases sp_eq_some hsp with ⟨gap, hgap, rfl, rfl, rfl, _⟩
  rcases h.spells with ⟨s, gap1, rfl, hgap1, hs⟩
  exact ⟨⟨s, gap1 ++ gap, by simp, hgap1.append hgap, hs⟩,
    by rw [List.append_nil, h.actions_eq], h.counts⟩

/-- White space, and what may follow a test. -/
def Ahead (r : List UInt8) : Prop :=
  exists gap s, r = gap ++ s ∧ Gap gap ∧ Follow s

theorem Ahead.gap {gap : List UInt8} (hgap : Gap gap) (h : Ahead r) :
    Ahead (gap ++ r) := by
  rcases h with ⟨gap', s, rfl, hgap', hs⟩
  exact ⟨gap ++ gap', s, by simp, hgap.append hgap', hs⟩

theorem ahead_word {word : List UInt8} (hword : word ≠ [])
    (h : word.all (fun b => (ascii "&|)").contains b) = true)
    (r : List UInt8) : Ahead (word ++ r) := by
  refine ⟨[], word ++ r, rfl, gap_nil, fun b hb =>
    List.contains_iff_mem.mp (List.all_eq_true.mp h b ?_)⟩
  cases word with
  | nil => exact absurd rfl hword
  | cons c rest =>
      cases hb
      exact List.mem_cons_self

/-- Behind a test there is no white space left. -/
theorem Ahead.follow (h : Ahead r)
    (hnot : forall b, r.head? = some b -> isSpace b = false) : Follow r := by
  rcases h with ⟨gap, s, rfl, hgap, hs⟩
  cases gap with
  | nil => exact hs
  | cons b rest =>
      have hspace := hgap b List.mem_cons_self
      rw [hnot b rfl] at hspace
      cases hspace

/-- The recursive rules never turn the counter back. -/
def Counting (env : Rule -> Parser Nat Action) : Prop :=
  forall rule r k, k.user <= (env rule r k).2.user

theorem denote_counting (henv : Counting env) (p : Grammar)
    (hp : Advances (· <= ·) (fun _ => True) p) (r : List UInt8)
    (k : Kept Nat) : k.user <= (denote env p r k).2.user :=
  denote_advances Nat.le_refl Nat.le_trans (fun rule r k _ => henv rule r k)
    p hp

/-- What a called rule reads. -/
def CallReads (env : Rule -> Parser Nat Action) : Prop :=
  forall {r k r' ts k'}, env Rule.ored r k = (some (r', ts), k') ->
    Ahead r' ->
    exists e : Expression TestText Level.ored, Reads e r k r' ts k'

/-- Every predicate of the grammar moves the counter forward. -/
theorem advances_of_quiet {p : Grammar} (h : Quiet p) :
    Advances (· <= ·) (fun _ => True) p :=
  All.imp (fun _ _ => trivial)
    (fun _ hf text u => Nat.le_of_eq (hf text u)) (fun _ hcall => hcall.elim)
    p h

theorem operator_advances (word : String) (op : MatchOperation) :
    Advances (· <= ·) (fun _ => True) (Grammar.seqs (Grammar.token word)
      [Grammar.condCnt, Grammar.act (Action.pushOp op), Grammar.sp]) :=
  ⟨trivial, fun _ u => Nat.le_succ u, trivial, trivial⟩

theorem expr_advances :
    Advances (· <= ·) (fun _ => True) Grammar.expr :=
  ⟨advances_of_quiet test_quiet, ⟨trivial, trivial, trivial⟩, trivial,
    trivial, trivial, trivial⟩

theorem anded_advances :
    Advances (· <= ·) (fun _ => True) Grammar.anded :=
  ⟨expr_advances, ⟨operator_advances "&&" MatchOperation.opAnd, expr_advances⟩,
    trivial⟩

theorem rules_advances (rule : Rule) :
    Advances (· <= ·) (fun _ => True) (Grammar.rules rule) :=
  match rule with
  | Rule.ored =>
      ⟨anded_advances,
        ⟨operator_advances "||" MatchOperation.opOr, anded_advances⟩, trivial⟩

theorem expr_reads (hshrinks : Shrinks env) (henv : CallReads env)
    (h : denote env Grammar.expr r k = (some (r', ts), k'))
    (hahead : Ahead r') :
    exists e : Expression TestText Level.expr, Reads e r k r' ts k' := by
  rcases alt_eq_some.mp h with htest | ⟨k1, htest, hgroup⟩
  · have hfollow := hahead.follow (test_not_space htest)
    rcases test_form htest with ⟨form, rfl⟩
    rcases denote_suffix hshrinks Grammar.test htest with ⟨s, rfl⟩
    have huser : (denote env Grammar.test (s ++ r') k).2.user = k.user :=
      denote_user Grammar.test test_quiet
    rw [htest] at huser
    refine ⟨Expression.test ⟨s, form, env, r', k, k', hshrinks, hfollow, htest⟩,
      ⟨s, [], by simp, gap_nil, rfl⟩, rfl, Counts.zero ?_⟩
    exact Nat.le_of_eq huser.symm
  · have huser : (denote env Grammar.test r k).2.user = k.user :=
      denote_user Grammar.test test_quiet
    rw [htest] at huser
    rcases seq_eq_some.mp hgroup with ⟨r2, ts2, k2, ts2', hopen, h1, rfl⟩
    rcases seq_eq_some.mp h1 with ⟨r3, ts3, k3, ts4, hcall, hclose, rfl⟩
    rcases bracket_eq_some hopen with ⟨gap, hgap, rfl, rfl, rfl⟩
    rcases bracket_eq_some hclose with ⟨gap', hgap', hr3, rfl, rfl⟩
    have hahead3 : Ahead r3 := by
      rw [hr3, List.append_assoc]
      exact ahead_word (by decide) (by decide) _
    rcases henv hcall hahead3 with ⟨e, he⟩
    rcases he.spells with ⟨s, gap1, rfl, hgap1, hs⟩
    refine ⟨Expression.group e,
      ⟨ascii "(" ++ gap ++ s ++ gap1 ++ ascii ")", gap', by simp [hr3], hgap',
        gap, s, gap1, rfl, hgap, hgap1, hs⟩, ?_, ?_⟩
    · simp [Expression.actions, he.actions_eq]
    · have hcounts := he.counts
      rw [huser] at hcounts
      exact hcounts

/-- The rounds of a chain: an operator and an operand. -/
def chainRound (word : String) (op : MatchOperation) (operand : Grammar) :
    Grammar :=
  Grammar.seqs (Grammar.seqs (Grammar.token word)
    [Grammar.condCnt, Grammar.act (Action.pushOp op), Grammar.sp]) [operand]

/--
A chain of operands with an operator between them is read from left to right,
whichever of the two levels it is.
-/
theorem chain_reads {low high : Level} {operand : Grammar} {word : String}
    {op : MatchOperation}
    (base : Expression TestText low -> Expression TestText high)
    (join : Expression TestText high -> Expression TestText low ->
      Expression TestText high)
    (hword : ascii word ≠ [])
    (hwords : (ascii word).all (fun b => (ascii "&|)").contains b) = true)
    (hoperand : forall {r k r' ts k'},
      denote env operand r k = (some (r', ts), k') -> Ahead r' ->
        exists e : Expression TestText low, Reads e r k r' ts k')
    (hcounting : forall r k,
      k.user <= (denote env (chainRound word op operand) r k).2.user)
    (hbase : forall e s, e.Spells s -> (base e).Spells s)
    (hbaseActions : forall e, (base e).actions = e.actions)
    (hbaseOperators : forall e, (base e).operators = e.operators)
    (hjoin : forall l r left gap gap' right, Gap gap -> Gap gap' ->
      l.Spells left -> r.Spells right ->
        (join l r).Spells (left ++ gap ++ ascii word ++ gap' ++ right))
    (hjoinActions : forall l r,
      (join l r).actions = l.actions ++ Action.pushOp op :: r.actions)
    (hjoinOperators : forall l r,
      (join l r).operators = l.operators + r.operators + 1)
    (h : denote env (Grammar.seqs operand
      [Peg.star (chainRound word op operand), Grammar.sp]) r k =
        (some (r', ts), k'))
    (hahead : Ahead r') :
    exists e : Expression TestText high, Reads e r k r' ts k' := by
  rcases seq_eq_some.mp h with ⟨r1, ts1, k1, ts1', hfirst, h1, rfl⟩
  rcases seq_eq_some.mp h1 with ⟨r2, ts2, k2, ts3, hstar, hsp, rfl⟩
  have hahead2 : Ahead r2 := by
    rcases sp_eq_some hsp with ⟨gap, hgap, rfl, _⟩
    exact hahead.gap hgap
  -- read backwards for what follows the operands, forwards for the operands
  have hloop := iterate_induction
    (f := denote env (chainRound word op operand))
    (P := fun r k r' ts k' => Ahead r' -> Ahead r ∧
      forall r0 k0 ts0 (l : Expression TestText high),
        Reads l r0 k0 r ts0 k ->
          exists e : Expression TestText high, Reads e r0 k0 r' (ts0 ++ ts) k')
    (fun r k k1 hf hahead => by
      have hle := hcounting r k
      rw [hf] at hle
      exact ⟨hahead, fun r0 k0 ts0 l hl => ⟨l, hl.spells,
        by rw [List.append_nil, hl.actions_eq], hl.counts.mono hle⟩⟩)
    (fun r k r1 ts1 k1 r2 ts2 k2 hf hrest hahead => by
      rcases hrest hahead with ⟨hahead1, hrest⟩
      rcases seq_eq_some.mp hf with ⟨r3, ts3, k3, ts4, hop, hright, rfl⟩
      rcases operator_eq_some hop with ⟨gap', hgap', rfl, rfl, hcount⟩
      rcases hoperand hright hahead1 with ⟨e, he⟩
      refine ⟨?_, fun r0 k0 ts0 l hl => ?_⟩
      · rw [List.append_assoc]
        exact ahead_word hword hwords _
      rcases hl.spells with ⟨left, gap, rfl, hgap, hleft⟩
      rcases he.spells with ⟨right, gap2, rfl, hgap2, hright⟩
      have hnext : Reads (join l e) (left ++ gap ++ (ascii word ++ gap' ++
          (right ++ gap2 ++ r1))) k0 r1
          (ts0 ++ ([Action.pushOp op] ++ ts4)) k1 := by
        refine ⟨⟨_, gap2, ?_, hgap2,
          hjoin l e left gap gap' right hgap hgap' hleft hright⟩, ?_, ?_⟩
        · simp
        · rw [hjoinActions, hl.actions_eq, he.actions_eq]
          rfl
        · rw [hjoinOperators, Nat.add_right_comm]
          exact (hl.counts.add hcount).add he.counts
      rcases hrest _ _ _ _ hnext with ⟨e', he'⟩
      exact ⟨e', by simpa using he'⟩)
    (fun r k hahead => ⟨hahead, fun r0 k0 ts0 l hl => ⟨l, by simpa using hl⟩⟩)
    (r1.length + 1) r1 k1
  rw [star_eq_some.mp hstar] at hloop
  rcases hloop hahead2 with ⟨hahead1, hloop⟩
  rcases hoperand hfirst hahead1 with ⟨e, he⟩
  have hfirst' : Reads (base e) r k r1 ts1 k1 := by
    rcases he.spells with ⟨s, gap, hr, hgap, hs⟩
    refine ⟨⟨s, gap, hr, hgap, hbase e s hs⟩, ?_, ?_⟩
    · rw [hbaseActions, he.actions_eq]
    · rw [hbaseOperators]
      exact he.counts
  rcases hloop r k ts1 (base e) hfirst' with ⟨e', he'⟩
  exact ⟨e', by simpa using he'.sp hsp⟩

theorem anded_reads (hshrinks : Shrinks env) (henv : CallReads env)
    (hcounting : Counting env)
    (h : denote env Grammar.anded r k = (some (r', ts), k'))
    (hahead : Ahead r') :
    exists e : Expression TestText Level.anded, Reads e r k r' ts k' := by
  refine chain_reads Expression.expr Expression.and (by decide) (by decide)
    (expr_reads hshrinks henv) (fun r k => ?_) (fun _ _ hs => hs)
    (fun _ => rfl) (fun _ => rfl)
    (fun l r left gap gap' right hgap hgap' hl hr =>
      ⟨left, gap, gap', right, rfl, hgap, hgap', hl, hr⟩)
    (fun _ _ => rfl) (fun _ _ => rfl) h hahead
  exact denote_counting hcounting (chainRound _ _ _)
    ⟨operator_advances "&&" MatchOperation.opAnd, expr_advances⟩ r k

theorem ored_reads (hshrinks : Shrinks env) (henv : CallReads env)
    (hcounting : Counting env)
    (h : denote env Grammar.ored r k = (some (r', ts), k'))
    (hahead : Ahead r') :
    exists e : Expression TestText Level.ored, Reads e r k r' ts k' := by
  refine chain_reads Expression.anded Expression.or (by decide) (by decide)
    (anded_reads hshrinks henv hcounting) (fun r k => ?_) (fun _ _ hs => hs)
    (fun _ => rfl) (fun _ => rfl)
    (fun l r left gap gap' right hgap hgap' hl hr =>
      ⟨left, gap, gap', right, rfl, hgap, hgap', hl, hr⟩)
    (fun _ _ => rfl) (fun _ _ => rfl) h hahead
  exact denote_counting hcounting (chainRound _ _ _)
    ⟨operator_advances "||" MatchOperation.opOr, anded_advances⟩ r k

theorem parse_reads : forall n, CallReads (parse Grammar.rules n)
  | 0, _, _, _, _, _, h => by cases h
  | n + 1, _, _, _, _, _, h =>
      ored_reads (parse_shrinks _ n) (parse_reads n)
        (fun rule r k => parse_advances Nat.le_refl Nat.le_trans
          rules_advances n rule r k) h

/-!
## Accepted texts
-/

/-- The only recursive call stands behind an opening parenthesis. -/
theorem expr_guarded : Guarded Grammar.expr := by
  have hopen : ascii "(" ≠ [] := by decide
  exact ⟨guarded_of_all (fun _ hcall => hcall) _ test_quiet,
    ⟨trivial, Or.inl hopen⟩, Or.inl (Or.inl hopen)⟩

theorem chain_guarded {operand : Grammar} (word : String)
    (op : MatchOperation) (h : Guarded operand) :
    Guarded (Grammar.seqs operand
      [Peg.star (Grammar.seqs (Grammar.seqs (Grammar.token word)
        [Grammar.condCnt, Grammar.act (Action.pushOp op), Grammar.sp])
        [operand]), Grammar.sp]) :=
  ⟨h, Or.inr ⟨⟨⟨trivial, Or.inr ⟨trivial, Or.inr ⟨trivial, Or.inr trivial⟩⟩⟩,
    Or.inr h⟩, Or.inr trivial⟩⟩

theorem rules_guarded (rule : Rule) : Guarded (Grammar.rules rule) :=
  match rule with
  | Rule.ored =>
      chain_guarded "||" MatchOperation.opOr
        (chain_guarded "&&" MatchOperation.opAnd expr_guarded)

/-- More nesting than the parser allows for changes nothing. -/
theorem yyparse_depth (exp : List UInt8) {n : Nat} (hn : exp.length < n) :
    yyparseWithin n exp = yyparse exp := by
  unfold yyparse yyparseWithin
  congr 2
  refine denote_congr (parse_shrinks Grammar.rules n) Grammar.matchRule ?_
  intro rule r1 k1 hr1 _
  have hle := hr1.length_le
  exact parse_depth rules_guarded (by omega) (by omega)

/-- An accepted text is an expression between white space, with no more
operators than the counter lets through. -/
theorem yyparse_reads {exp : List UInt8} {actions : List Action}
    (h : yyparse exp = some actions) :
    exists (e : Expression TestText Level.ored) (gap s gap' : List UInt8),
      exp = gap ++ s ++ gap' ∧ Gap gap ∧ Gap gap' ∧ e.Spells s ∧
        actions = e.actions ++ [Action.popAllOps] ∧ e.operators <= 127 := by
  unfold yyparse yyparseWithin at h
  generalize hparse : Peg.denote (Peg.parse Grammar.rules (exp.length + 1))
    Grammar.matchRule exp ⟨exp, exp, 0⟩ = outcome at h
  rcases outcome with ⟨_ | ⟨r', ts⟩, k'⟩
  · cases h
  · cases h
    rcases seq_eq_some.mp hparse with ⟨r1, ts1, k1, ts1', hsp, h1, rfl⟩
    rcases seq_eq_some.mp h1 with ⟨r2, ts2, k2, ts2', hcall, h2, rfl⟩
    rcases seq_eq_some.mp h2 with ⟨r3, ts3, k3, ts4, heol, hpop, rfl⟩
    rcases sp_eq_some hsp with ⟨gap, hgap, rfl, rfl, rfl, _⟩
    rcases notAt_eq_some.mp heol with ⟨hany, rfl, rfl⟩
    rcases act_eq_some.mp hpop with ⟨rfl, rfl, rfl⟩
    have hend : r' = [] := by
      cases r' with
      | nil => rfl
      | cons b rest => cases hany
    have hahead : Ahead r' := by
      rw [hend]
      exact ⟨[], [], rfl, gap_nil, fun b hb => by cases hb⟩
    rcases parse_reads _ hcall hahead with ⟨e, he⟩
    rcases he.spells with ⟨s, gap', rfl, hgap', hs⟩
    refine ⟨e, gap, s, gap', by simp [hend], hgap, hgap', hs, ?_, ?_⟩
    · simp [he.actions_eq]
    · have hcounts := he.counts.2
      simp only [Nat.zero_add] at hcounts
      omega

end Matcher
end LuaSandbox
