import LuaSandbox.Matcher.Eval
import Mathlib.Data.List.Lex
import Mathlib.Order.WithBot

/-!
# The order of strings

The relational operators of the matcher and the lexicographic order of strings,
with an absent string below all others.
-/

namespace LuaSandbox
namespace Matcher

open Foundation Util
open MatchOperation

/-!
## The order
-/

/-- The bytes of a string as numbers, in lexicographic order. -/
def unsigned (xs : List UInt8) : List Nat := xs.map UInt8.toNat

/-- A slice as a string; the null pointer is the least one. -/
def stringValue (mem : Memory) (val : ConstString) : WithBot (List Nat) :=
  match val.s with
  | none => ⊥
  | some _ => (unsigned (val.bytes mem) : List Nat)

section

variable {xs lit : List UInt8}

theorem unsigned_inj : unsigned xs = unsigned lit <-> xs = lit := by
  constructor
  · exact fun h => List.map_injective_iff.mpr
      (fun a b => UInt8.toNat_inj.mp) h
  · rintro rfl
    rfl

theorem unsigned_cons_lt {a b : UInt8} :
    unsigned (a :: xs) < unsigned (b :: lit) <->
      a.toNat < b.toNat ∨ a = b ∧ unsigned xs < unsigned lit := by
  change a.toNat :: unsigned xs < b.toNat :: unsigned lit <-> _
  rw [List.cons_lt_cons_iff, UInt8.toNat_inj]

theorem unsigned_lt_append (b : UInt8) (rest : List UInt8) :
    unsigned xs < unsigned (xs ++ b :: rest) := by
  induction xs with
  | nil => exact List.nil_lt_cons _ _
  | cons a xs ih =>
      rw [List.cons_append, unsigned_cons_lt]
      exact Or.inr ⟨rfl, ih⟩

/-- The result of comparing a string with a literal that a NUL ends. -/
inductive Compared (xs lit : List UInt8) : Int -> Prop where
  | less {r} : r < 0 -> unsigned xs < unsigned lit -> Compared xs lit r
  | start : xs <+: lit -> Compared xs lit 0
  | extended {rest} : xs = lit ++ 0 :: rest -> Compared xs lit 0
  | greater {r} : 0 < r -> unsigned lit < unsigned xs ->
      (forall rest, xs ≠ lit ++ 0 :: rest) -> Compared xs lit r

theorem Compared.cons {r : Int} (b : UInt8) (h : Compared xs lit r) :
    Compared (b :: xs) (b :: lit) r := by
  cases h with
  | less hr hlt =>
      exact Compared.less hr (unsigned_cons_lt.mpr (Or.inr ⟨rfl, hlt⟩))
  | start hprefix =>
      exact Compared.start (List.cons_prefix_cons.mpr ⟨rfl, hprefix⟩)
  | extended hrest =>
      exact Compared.extended (by rw [hrest]; rfl)
  | greater hr hlt hne =>
      refine Compared.greater hr (unsigned_cons_lt.mpr (Or.inr ⟨rfl, hlt⟩)) ?_
      intro rest hrest
      exact hne rest (List.cons.inj hrest).2

theorem strncmp_compared (xs : List UInt8) (hlit : 0 ∉ lit) :
    Compared xs lit (strncmp xs (lit ++ [0]) xs.length) := by
  induction lit generalizing xs with
  | nil =>
      cases xs with
      | nil => exact Compared.start List.nil_prefix
      | cons a rest =>
          change Compared _ _ (if a ≠ 0 then (a.toNat : Int) - 0 else _)
          by_cases ha : a = 0
          · subst ha
            exact Compared.extended rfl
          · have hpos : a.toNat ≠ 0 := fun h => ha (UInt8.toNat_inj.mp h)
            rw [if_pos ha]
            refine Compared.greater (by omega) (List.nil_lt_cons _ _) ?_
            intro rest' hrest
            exact ha (List.cons.inj hrest).1
  | cons c lit ih =>
      rw [List.mem_cons, not_or] at hlit
      cases xs with
      | nil => exact Compared.start List.nil_prefix
      | cons a rest =>
          change Compared _ _ (if a ≠ c then (a.toNat : Int) - c.toNat
            else if a = 0 then 0
            else strncmp rest (lit ++ [0]) rest.length)
          by_cases hac : a = c
          · subst hac
            rw [if_neg (not_not.mpr rfl), if_neg (Ne.symm hlit.1)]
            exact (ih rest hlit.2).cons a
          · have hne : a.toNat ≠ c.toNat := fun h => hac (UInt8.toNat_inj.mp h)
            rw [if_pos hac]
            rcases Nat.lt_or_gt_of_ne hne with hlt | hgt
            · exact Compared.less (by omega) (unsigned_cons_lt.mpr (Or.inl hlt))
            · refine Compared.greater (by omega)
                (unsigned_cons_lt.mpr (Or.inl hgt)) ?_
              intro rest' hrest
              exact hac (List.cons.inj hrest).1

end

/-- What all operators but one go by: the lengths if there is no difference. -/
def comparison (xs lit : List UInt8) : Int :=
  if strncmp xs (lit ++ [0]) xs.length = 0 then
    (xs.length : Int) - lit.length
  else
    strncmp xs (lit ++ [0]) xs.length

section

variable {xs lit : List UInt8}

theorem unsigned_lt_of_prefix (h : xs <+: lit)
    (hlength : xs.length < lit.length) : unsigned xs < unsigned lit := by
  rcases h with ⟨rest, rfl⟩
  cases rest with
  | nil =>
      rw [List.append_nil] at hlength
      exact absurd hlength (Nat.lt_irrefl _)
  | cons b rest => exact unsigned_lt_append b rest

/-- The comparison has the sign of the order. -/
theorem comparison_order (xs : List UInt8) (hlit : 0 ∉ lit) :
    (comparison xs lit < 0 ∧ unsigned xs < unsigned lit) ∨
    (comparison xs lit = 0 ∧ unsigned xs = unsigned lit) ∨
    (0 < comparison xs lit ∧ unsigned lit < unsigned xs) := by
  have hcompared := strncmp_compared xs hlit
  unfold comparison
  generalize strncmp xs (lit ++ [0]) xs.length = r at hcompared ⊢
  cases hcompared with
  | less hr hlt =>
      rw [if_neg (by omega)]
      exact Or.inl ⟨hr, hlt⟩
  | start hprefix =>
      rw [if_pos rfl]
      rcases Nat.lt_or_eq_of_le hprefix.length_le with hlt | heq
      · exact Or.inl ⟨by omega, unsigned_lt_of_prefix hprefix hlt⟩
      · have hsame : xs = lit := hprefix.eq_of_length heq
        exact Or.inr (Or.inl ⟨by omega, by rw [hsame]⟩)
  | extended hrest =>
      rename_i rest
      have hlength : xs.length = lit.length + (rest.length + 1) := by
        rw [hrest, List.length_append, List.length_cons]
      rw [if_pos rfl]
      refine Or.inr (Or.inr ⟨by omega, ?_⟩)
      rw [hrest]
      exact unsigned_lt_append 0 _
  | greater hr hlt hne =>
      rw [if_neg (by omega)]
      exact Or.inr (Or.inr ⟨hr, hlt⟩)

theorem comparison_eq_iff (hlit : 0 ∉ lit) :
    comparison xs lit = 0 <-> unsigned xs = unsigned lit := by
  rcases comparison_order xs hlit with ⟨hr, ho⟩ | ⟨hr, ho⟩ | ⟨hr, ho⟩
  · exact iff_of_false (by omega) ho.ne
  · exact iff_of_true hr ho
  · exact iff_of_false (by omega) ho.ne'

theorem comparison_lt_iff (hlit : 0 ∉ lit) :
    comparison xs lit < 0 <-> unsigned xs < unsigned lit := by
  rcases comparison_order xs hlit with ⟨hr, ho⟩ | ⟨hr, ho⟩ | ⟨hr, ho⟩
  · exact iff_of_true hr ho
  · exact iff_of_false (by omega) ho.not_lt
  · exact iff_of_false (by omega) ho.asymm

theorem comparison_gt_iff (hlit : 0 ∉ lit) :
    0 < comparison xs lit <-> unsigned lit < unsigned xs := by
  rcases comparison_order xs hlit with ⟨hr, ho⟩ | ⟨hr, ho⟩ | ⟨hr, ho⟩
  · exact iff_of_false (by omega) ho.asymm
  · exact iff_of_false (by omega) ho.symm.not_lt
  · exact iff_of_true hr ho

/-- Without the lengths a literal with a NUL and more is not greater. -/
theorem strncmp_le_iff (hlit : 0 ∉ lit) :
    (strncmp xs (lit ++ [0]) xs.length <= 0 <-> unsigned xs <= unsigned lit) <->
      ¬ exists rest, xs = lit ++ 0 :: rest := by
  have hcompared := strncmp_compared xs hlit
  generalize strncmp xs (lit ++ [0]) xs.length = r at hcompared ⊢
  cases hcompared with
  | less hr hlt =>
      refine iff_of_true (iff_of_true (Int.le_of_lt hr) hlt.le) ?_
      rintro ⟨rest, rfl⟩
      exact hlt.asymm (unsigned_lt_append 0 rest)
  | start hprefix =>
      have hle : unsigned xs <= unsigned lit := by
        rcases hprefix with ⟨rest, rfl⟩
        cases rest with
        | nil => rw [List.append_nil]
        | cons b rest => exact (unsigned_lt_append b rest).le
      refine iff_of_true (iff_of_true (Int.le_refl 0) hle) ?_
      rintro ⟨rest, rfl⟩
      exact absurd hle (unsigned_lt_append 0 rest).not_ge
  | extended hrest =>
      refine iff_of_false ?_ (not_not.mpr ⟨_, hrest⟩)
      rw [hrest]
      intro h
      exact absurd (h.mp (Int.le_refl 0)) (unsigned_lt_append 0 _).not_ge
  | greater hr hlt hne =>
      refine iff_of_true (iff_of_false (by omega) hlt.not_ge) ?_
      rintro ⟨rest, hrest⟩
      exact hne rest hrest

end

/-!
## The relational operators
-/

/-- A node with a string literal, which is kept with its length. -/
structure HoldsLiteral (mn : MatchNode) (lit : List UInt8) : Prop where
  string : mn.val.string = lit
  valLen : mn.valLen.toNat = lit.length
  no_nul : 0 ∉ lit

/-- The six operators compare as the order of strings does. -/
structure ComparesInOrder (mem : Memory) (mn : MatchNode) (val : ConstString)
    (v w : WithBot (List Nat)) : Prop where
  eq : stringTest mem { mn with op := opEq } val = true <-> v = w
  ne : stringTest mem { mn with op := opNe } val = true <-> v ≠ w
  lt : stringTest mem { mn with op := opLt } val = true <-> v < w
  le : stringTest mem { mn with op := opLte } val = true <-> v <= w
  gt : stringTest mem { mn with op := opGt } val = true <-> w < v
  ge : stringTest mem { mn with op := opGte } val = true <-> w <= v

section

variable {mem : Memory} {mn : MatchNode} {val : ConstString}
  {lit : List UInt8}

theorem comparesInOrder_absent (h : val.s = none) :
    ComparesInOrder mem mn val ⊥ (unsigned lit : List Nat) := by
  constructor
  all_goals
    unfold stringTest
    simp [h]

/-- The operators in terms of the comparison, for a string that is there. -/
theorem stringTest_present (h : val.s ≠ none) (hmn : HoldsLiteral mn lit) :
    (stringTest mem { mn with op := opEq } val = true <->
      comparison (val.bytes mem) lit = 0) ∧
    (stringTest mem { mn with op := opNe } val = true <->
      comparison (val.bytes mem) lit ≠ 0) ∧
    (stringTest mem { mn with op := opLt } val = true <->
      comparison (val.bytes mem) lit < 0) ∧
    (stringTest mem { mn with op := opLte } val = true <->
      strncmp (val.bytes mem) (lit ++ [0]) (val.bytes mem).length <= 0) ∧
    (stringTest mem { mn with op := opGt } val = true <->
      0 < comparison (val.bytes mem) lit) ∧
    (stringTest mem { mn with op := opGte } val = true <->
      0 <= comparison (val.bytes mem) lit) := by
  have hlength : (val.bytes mem).length = val.len := by
    rcases val with ⟨_ | p, len⟩
    · exact absurd rfl h
    · exact Memory.length_bytes mem p len
  unfold stringTest MatchNode.cString comparison
  rw [hlength, hmn.string, hmn.valLen]
  generalize strncmp (val.bytes mem) (lit ++ [0]) val.len = r
  simp only [h, or_false, if_false]
  refine ⟨?_, ?_, ?_, ?_, ?_, ?_⟩
  · split <;> split <;> simp <;> omega
  · split <;> split <;> simp <;> omega
  · split
    · simp
    · simp
  · simp
  · split
    · simp
    · simp
  · split
    · simp
    · simp only [decide_eq_true_eq]
      omega

theorem stringValue_present (h : val.s ≠ none) :
    stringValue mem val = (unsigned (val.bytes mem) : List Nat) := by
  unfold stringValue
  split
  · rename_i hnone
    exact absurd hnone h
  · rfl

theorem comparesInOrder_present (h : val.s ≠ none)
    (hmn : HoldsLiteral mn lit) :
    ComparesInOrder mem mn val (unsigned (val.bytes mem) : List Nat)
        (unsigned lit : List Nat) <->
      ¬ exists rest, val.bytes mem = lit ++ 0 :: rest := by
  rcases stringTest_present h hmn with
    ⟨heq, hne, hlt, hle, hgt, hge⟩
  rw [← strncmp_le_iff hmn.no_nul]
  constructor
  · intro horder
    have hle' := horder.le
    rwa [hle, WithBot.coe_le_coe] at hle'
  · intro hless
    constructor
    · rw [heq, comparison_eq_iff hmn.no_nul, WithBot.coe_inj]
    · rw [hne, ne_eq, comparison_eq_iff hmn.no_nul, ne_eq, WithBot.coe_inj]
    · rw [hlt, comparison_lt_iff hmn.no_nul, WithBot.coe_lt_coe]
    · rw [hle, hless, WithBot.coe_le_coe]
    · rw [hgt, comparison_gt_iff hmn.no_nul, WithBot.coe_lt_coe]
    · rw [hge, ← Int.not_lt, comparison_lt_iff hmn.no_nul,
        WithBot.coe_le_coe, not_lt]

/-- The operators compare in the order of strings, but for the string that is
the literal with a NUL and more behind it. -/
theorem stringTest_order_iff (mem : Memory) (mn : MatchNode)
    (val : ConstString) (lit : List UInt8) (hmn : HoldsLiteral mn lit) :
    ComparesInOrder mem mn val (stringValue mem val)
        (unsigned lit : List Nat) <->
      ¬ exists rest, val.bytes mem = lit ++ 0 :: rest := by
  by_cases h : val.s = none
  · have hvalue : stringValue mem val = ⊥ := by
      unfold stringValue
      rw [h]
    have hbytes : val.bytes mem = [] := by
      unfold ConstString.bytes
      rw [h]
    rw [hvalue, hbytes]
    refine iff_of_true (comparesInOrder_absent h) ?_
    rintro ⟨rest, hrest⟩
    exact absurd hrest.symm (by simp)
  · rw [stringValue_present h]
    exact comparesInOrder_present h hmn

end

/-!
The string of two bytes `a` and NUL is less than or equal to `a`.
-/

/-- A node that compares with the literal `a`. -/
def literalNode : MatchNode :=
  copyNode 0 (setStringValue initMatchNode (ascii "a"))

theorem literalNode_holds : HoldsLiteral literalNode (ascii "a") :=
  ⟨by decide, by decide, by decide⟩

theorem stringTest_order_iff_absent :
    ComparesInOrder (fun _ => 0) literalNode ConstString.init ⊥
      (unsigned (ascii "a") : List Nat) :=
  (stringTest_order_iff (fun _ => 0) literalNode ConstString.init (ascii "a")
    literalNode_holds).mpr (by
      rintro ⟨rest, hrest⟩
      cases hrest)

theorem stringTest_extended :
    ¬ ComparesInOrder (Memory.ofList [0x61, 0]) literalNode ⟨some 0, 2⟩
      (stringValue (Memory.ofList [0x61, 0]) ⟨some 0, 2⟩)
      (unsigned (ascii "a") : List Nat) := by
  intro h
  have hle := h.le.mp (by decide)
  rw [stringValue_present (by decide), WithBot.coe_le_coe] at hle
  exact absurd hle (by decide)

end Matcher
end LuaSandbox
