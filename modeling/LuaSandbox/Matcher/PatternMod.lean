import LuaSandbox.Matcher.Eval
import LuaSandbox.Util.PatternAccepts

/-!
# Literal patterns

A pattern without special characters is searched for as it stands, which finds
what the pattern engine finds.
-/

namespace LuaSandbox
namespace Matcher

open Foundation Util

/-!
## The memory search
-/

theorem memchr_eq (mem : Memory) (c : UInt8) {n : Nat} :
    forall {p : Nat}, memchr mem c n p = mem.memchr c p n := by
  induction n with
  | zero =>
      intro p
      rfl
  | succ n ih =>
      intro p
      rw [memchr, Memory.memchr, ih]

/-- The loop finds the literal among the next `l1` positions. -/
theorem lmemfindLoop_isSome {mem : Memory} {c : UInt8} {rest : List UInt8}
    {n : Nat} : forall {s l : Nat}, l <= n ->
      ((lmemfindLoop mem c rest n s l).isSome = true <->
        exists i, i < l ∧
          mem.bytes (s + i) (rest.length + 1) = c :: rest) := by
  induction n with
  | zero =>
      intro s l hl
      apply iff_of_false Bool.false_ne_true
      rintro ⟨i, hi, -⟩
      omega
  | succ n ih =>
      intro s l hl
      have hcons : forall i, mem.bytes (s + i) (rest.length + 1) = c :: rest <->
          mem (s + i) = c ∧ mem.bytes (s + i + 1) rest.length = rest := by
        intro i
        rw [Nat.add_comm rest.length, Memory.bytes_add, Memory.bytes_one,
          List.singleton_append, List.cons.injEq]
      rw [lmemfindLoop, memchr_eq]
      cases hfound : mem.memchr c s l with
      | none =>
          apply iff_of_false Bool.false_ne_true
          rintro ⟨i, hi, hbytes⟩
          have hnone := Memory.memchr_none hfound
          exact hnone (s + i) (Nat.le_add_right s i)
            (Nat.add_lt_add_left hi s) ((hcons i).mp hbytes).1
      | some init =>
          rcases Memory.memchr_some hfound with ⟨hlow, hhigh, hc, hbefore⟩
          rcases Nat.exists_eq_add_of_le hlow with ⟨k, rfl⟩
          dsimp only
          split
          · rename_i hrest
            exact iff_of_true rfl ⟨k, by omega, (hcons k).mpr ⟨hc, hrest⟩⟩
          · rename_i hrest
            rw [ih (by omega)]
            constructor
            · rintro ⟨i, hi, hbytes⟩
              refine ⟨k + 1 + i, by omega, ?_⟩
              rwa [← Nat.add_assoc, ← Nat.add_assoc]
            · rintro ⟨i, hi, hbytes⟩
              rw [hcons] at hbytes
              have hlater : k < i := by
                apply Nat.lt_of_not_le
                intro hle
                rcases Nat.lt_or_eq_of_le hle with hlt | rfl
                · exact hbefore (s + i) (Nat.le_add_right s i)
                    (Nat.add_lt_add_left hlt s) hbytes.1
                · exact hrest hbytes.2
              rcases Nat.exists_eq_add_of_lt hlater with ⟨j, rfl⟩
              refine ⟨j, by omega, ?_⟩
              have hassoc : s + k + 1 + j = s + (k + j + 1) := by omega
              rw [hassoc, hcons]
              exact hbytes

theorem lsbStringFind_iff {mem : Memory} {s len : Nat} {p : List UInt8} :
    lsbStringFind mem ⟨some s, len⟩ p = true <->
      exists i, i + p.length <= len ∧ mem.bytes (s + i) p.length = p := by
  unfold lsbStringFind lmemfind
  dsimp only
  split
  · exact iff_of_true rfl ⟨0, Nat.zero_le len, rfl⟩
  · rename_i c rest
    rw [List.length_cons]
    split
    · apply iff_of_false Bool.false_ne_true
      rintro ⟨i, hi, -⟩
      omega
    · rw [lmemfindLoop_isSome (Nat.sub_le len rest.length)]
      apply exists_congr
      intro i
      apply and_congr_left
      intro _
      omega

/-!
## The pattern engine on a literal
-/

/-- A character that the classification lets pass. -/
def isPlain (c : UInt8) : Bool := !(ascii "^$*+?.[%-").contains c

theorem isPlain_ne {c x : UInt8} (h : isPlain c = true)
    (hx : isPlain x = false) : c ≠ x := by
  rintro rfl
  rw [h] at hx
  cases hx

section

variable {mem : Memory} {srcInit srcEnd : Nat} {edge : Option UInt8}

/-- The engine compares a plain character and goes on. -/
theorem acceptsPattern_plain {s : Nat} {c : UInt8} {p : List UInt8}
    (hc : isPlain c = true) (hp : p.all isPlain = true) :
    AcceptsPattern mem srcInit srcEnd edge s (c :: p) <->
      (s < srcEnd ∧ mem s = c) ∧
        AcceptsPattern mem srcInit srcEnd edge (s + 1) p := by
  have hpercent : c ≠ 0x25 := isPlain_ne hc (by decide)
  have hbracket : c ≠ 0x5b := isPlain_ne hc (by decide)
  have hdot : c ≠ 0x2e := isPlain_ne hc (by decide)
  have hdollar : c ≠ 0x24 := isPlain_ne hc (by decide)
  have hitem : IsItem (c :: p) := by
    unfold IsItem
    split <;> simp_all
  have hep : classend (c :: p) = some p := by
    rw [classend] <;> simp_all
  have hsingle : singlematch (mem s) (c :: p) p = true <-> mem s = c := by
    rw [singlematch, beq_iff_eq, eq_comm] <;> simp_all
  have hhead : forall x, isPlain x = false -> p.head? ≠ some x := by
    intro x hx hhead
    have := List.all_eq_true.mp hp x (List.mem_of_mem_head? hhead)
    rw [hx] at this
    cases this
  have hallows : forall i, Allows p i <-> i = 1 := by
    intro i
    unfold Allows
    split
    · exact absurd rfl (hhead 0x3f (by decide))
    · exact absurd rfl (hhead 0x2a (by decide))
    · exact absurd rfl (hhead 0x2b (by decide))
    · exact absurd rfl (hhead 0x2d (by decide))
    · exact Iff.rfl
  have hbehind : behindQuantifier p = p := by
    unfold behindQuantifier
    split
    · exact absurd rfl (hhead 0x3f (by decide))
    · exact absurd rfl (hhead 0x2a (by decide))
    · exact absurd rfl (hhead 0x2b (by decide))
    · exact absurd rfl (hhead 0x2d (by decide))
    · rfl
  rw [acceptsPattern_item_iff hitem]
  constructor
  · rintro ⟨ep, hep', i, hi, hrepeats, haccepts⟩
    rw [hep, Option.some_inj] at hep'
    subst hep'
    rw [hallows] at hi
    subst hi
    rw [repeats_one, hsingle] at hrepeats
    rw [hbehind] at haccepts
    exact ⟨hrepeats, haccepts⟩
  · rintro ⟨hfirst, haccepts⟩
    refine ⟨p, hep, 1, (hallows 1).mpr rfl, ?_, ?_⟩
    · rwa [repeats_one, hsingle]
    · rwa [hbehind]

theorem acceptsPattern_literal {p : List UInt8} :
    forall {s : Nat}, s <= srcEnd -> p.all isPlain = true ->
      (AcceptsPattern mem srcInit srcEnd edge s p <->
        s + p.length <= srcEnd ∧ mem.bytes s p.length = p) := by
  induction p with
  | nil =>
      intro s hs _
      exact iff_of_true (AcceptsPattern.finish s) ⟨hs, rfl⟩
  | cons c p ih =>
      intro s hs hp
      rw [List.all_cons, Bool.and_eq_true] at hp
      rw [acceptsPattern_plain hp.1 hp.2, List.length_cons,
        Nat.add_comm p.length, Memory.bytes_add, Memory.bytes_one,
        List.singleton_append, List.cons.injEq]
      constructor
      · rintro ⟨⟨hin, hc⟩, haccepts⟩
        rcases (ih hin hp.2).mp haccepts with ⟨hle, hbytes⟩
        exact ⟨by omega, hc, hbytes⟩
      · rintro ⟨hle, hc, hbytes⟩
        have hin : s < srcEnd := by omega
        exact ⟨⟨hin, hc⟩, (ih hin hp.2).mpr ⟨by omega, hbytes⟩⟩

end

theorem unanchored_literal {p : List UInt8} (hp : p.all isPlain = true) :
    unanchored p = p ∧ isAnchored p = false := by
  unfold unanchored isAnchored
  split
  · cases hp
  · exact ⟨rfl, rfl⟩

theorem lsbStringMatch_literal {mem : Memory} {s len : Nat}
    {p : List UInt8} (hp : p.all isPlain = true) :
    lsbStringMatch mem ⟨some s, len⟩ p = true <->
      exists i, i + p.length <= len ∧ mem.bytes (s + i) p.length = p := by
  rw [lsbStringMatch_iff, AcceptsSlice, (unanchored_literal hp).1,
    (unanchored_literal hp).2]
  apply exists_congr
  intro i
  constructor
  · rintro ⟨hi, -, haccepts⟩
    rw [acceptsPattern_literal hi hp] at haccepts
    exact ⟨by omega, haccepts.2⟩
  · rintro ⟨hi, hbytes⟩
    have hle : s + i <= s + len := by omega
    exact ⟨hle, nofun,
      (acceptsPattern_literal hle hp).mpr ⟨by omega, hbytes⟩⟩

/-!
## The classification
-/

theorem setMatchMod_plain {mn : MatchNodeTmp}
    (hmod : mn.valMod = MatchPatternMod.patternModNone)
    (h : (setMatchMod mn).valMod = MatchPatternMod.patternModEsc) :
    mn.val.string.all isPlain = true := by
  unfold setMatchMod at h
  split at h
  · rename_i hplain
    exact hplain.2
  · rw [hmod] at h
    cases h

/--
Where the parser classifies a pattern as plain, the memory search that the node
chooses and the pattern engine give the same answer.
-/
theorem lsbStringFind_eq_lsbStringMatch (mn : MatchNodeTmp)
    (hmod : mn.valMod = MatchPatternMod.patternModNone)
    (hplain : (setMatchMod mn).valMod = MatchPatternMod.patternModEsc)
    (mem : Memory) (subject : ConstString) :
    lsbStringFind mem subject mn.val.string =
      lsbStringMatch mem subject mn.val.string := by
  rcases subject with ⟨_ | s, len⟩
  · rfl
  · rw [Bool.eq_iff_iff, lsbStringFind_iff,
      lsbStringMatch_literal (setMatchMod_plain hmod hplain)]

theorem lsbStringFind_eq_lsbStringMatch_word :
    lsbStringFind (Memory.ofList (ascii "llama")) ⟨some 0, 5⟩ (ascii "lam") =
      lsbStringMatch (Memory.ofList (ascii "llama")) ⟨some 0, 5⟩
        (ascii "lam") :=
  lsbStringFind_eq_lsbStringMatch
    (setStringValue initMatchNode (ascii "lam")) rfl (by decide) _ _

end Matcher
end LuaSandbox
