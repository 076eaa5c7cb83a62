import LuaSandbox.Util.StringMatcher

/-!
# Pattern acceptance

What the backtracking of `match` computes, as a relation between a position and
the rest of the pattern: every item takes some number of characters that its
quantifier allows, and what follows is accepted behind them.

The relation does not read the byte behind the slice.  Whether a frontier finds
one there, and which, is an argument.
-/

namespace LuaSandbox
namespace Util

open Foundation

/-!
## Items
-/

/-- The pattern starts with a class and its quantifier. -/
def IsItem : List UInt8 -> Prop
  | [] => False
  | [0x24] => False
  | 0x25 :: 0x62 :: _ => False
  | 0x25 :: 0x66 :: _ => False
  | _ => True

theorem not_isItem {p : List UInt8} (h : ¬ IsItem p) :
    p = [] ∨ p = [0x24] ∨ (exists args, p = 0x25 :: 0x62 :: args) ∨
      exists set, p = 0x25 :: 0x66 :: set := by
  unfold IsItem at h
  split at h
  · exact Or.inl rfl
  · exact Or.inr (Or.inl rfl)
  · exact Or.inr (Or.inr (Or.inl ⟨_, rfl⟩))
  · exact Or.inr (Or.inr (Or.inr ⟨_, rfl⟩))
  · exact absurd trivial h

/-- What stands behind the class lets it match `i` characters. -/
def Allows (ep : List UInt8) (i : Nat) : Prop :=
  match ep with
  | 0x3f :: _ => i <= 1
  | 0x2a :: _ => True
  | 0x2b :: _ => 1 <= i
  | 0x2d :: _ => True
  | _ => i = 1

def behindQuantifier : List UInt8 -> List UInt8
  | 0x3f :: rest => rest
  | 0x2a :: rest => rest
  | 0x2b :: rest => rest
  | 0x2d :: rest => rest
  | ep => ep

/-- The next `i` characters are in the slice and match the class. -/
def Repeats (mem : Memory) (srcEnd : Nat) (p ep : List UInt8)
    (s i : Nat) : Prop :=
  forall j, j < i -> s + j < srcEnd ∧ singlematch (mem (s + j)) p ep = true

theorem repeats_zero {mem : Memory} {srcEnd s : Nat} {p ep : List UInt8} :
    Repeats mem srcEnd p ep s 0 := by
  intro j hj
  cases hj

theorem repeats_succ {mem : Memory} {srcEnd s i : Nat} {p ep : List UInt8} :
    Repeats mem srcEnd p ep s (i + 1) <->
      (s < srcEnd ∧ singlematch (mem s) p ep = true) ∧
        Repeats mem srcEnd p ep (s + 1) i := by
  constructor
  · intro h
    constructor
    · exact h 0 (Nat.succ_pos i)
    · intro j hj
      have hnext := h (j + 1) (Nat.succ_lt_succ hj)
      rwa [← Nat.add_assoc, Nat.add_right_comm] at hnext
  · rintro ⟨hfirst, hrest⟩ j hj
    cases j with
    | zero => exact hfirst
    | succ j =>
        have hnext := hrest j (Nat.lt_of_succ_lt_succ hj)
        rwa [Nat.add_right_comm, Nat.add_assoc] at hnext

theorem repeats_one {mem : Memory} {srcEnd s : Nat} {p ep : List UInt8} :
    Repeats mem srcEnd p ep s 1 <->
      s < srcEnd ∧ singlematch (mem s) p ep = true := by
  rw [repeats_succ]
  exact and_iff_left repeats_zero

theorem Repeats.le {mem : Memory} {srcEnd s i : Nat} {p ep : List UInt8}
    (h : Repeats mem srcEnd p ep s i) (hs : s <= srcEnd) :
    s + i <= srcEnd := by
  cases i with
  | zero => exact hs
  | succ i => exact (h i (Nat.lt_succ_self i)).1

theorem classendBracket_length {p ep : List UInt8}
    (h : classendBracket p = some ep) : ep.length < p.length := by
  fun_induction classendBracket p with
  | case1 => cases h
  | case2 =>
      cases h
      simp only [List.length_cons]
      omega
  | case3 _ _ _ ih =>
      have := ih h
      simp only [List.length_cons]
      omega
  | case4 =>
      cases h
      simp only [List.length_cons]
      omega
  | case5 _ _ _ _ _ ih =>
      have := ih h
      simp only [List.length_cons]
      omega

/-- The class at the front takes at least a byte of the pattern. -/
theorem classend_length {p ep : List UInt8} (h : classend p = some ep) :
    ep.length < p.length := by
  fun_cases classend p with
  | case1 => cases h
  | case2 => cases h
  | case3 =>
      cases h
      simp only [List.length_cons]
      omega
  | case4 =>
      have := classendBracket_length (h : classendBracket _ = some ep)
      simp only [List.length_cons]
      omega
  | case5 =>
      have := classendBracket_length (by simpa [classend] using h)
      simp only [List.length_cons]
      omega
  | case6 => simp_all [classend]

theorem behindQuantifier_length (ep : List UInt8) :
    (behindQuantifier ep).length <= ep.length := by
  fun_cases behindQuantifier ep <;> simp

/-!
## Loops
-/

theorem le_expandCount_iff {mem : Memory} {srcEnd : Nat} {p ep : List UInt8}
    {n : Nat} : forall {s i : Nat}, s + n = srcEnd ->
      (i <= expandCount mem p ep n s <-> Repeats mem srcEnd p ep s i) := by
  induction n with
  | zero =>
      intro s i hs
      simp only [expandCount, Nat.le_zero]
      constructor
      · rintro rfl
        exact repeats_zero
      · intro h
        have := h.le (Nat.le_of_eq hs)
        omega
  | succ n ih =>
      intro s i hs
      cases i with
      | zero => exact iff_of_true (Nat.zero_le _) repeats_zero
      | succ i =>
          have hin : s < srcEnd := by omega
          rw [repeats_succ, expandCount]
          split
          · rename_i hsingle
            rw [Nat.succ_le_succ_iff, ih (by omega)]
            exact (and_iff_right ⟨hin, hsingle⟩).symm
          · rename_i hsingle
            constructor
            · intro h
              cases h
            · rintro ⟨⟨-, h⟩, -⟩
              exact absurd h hsingle

theorem isSome_orElse {a : Option Nat} {b : Unit -> Option Nat} :
    (a.orElse b).isSome = true <-> a.isSome = true ∨ (b ()).isSome = true := by
  cases a with
  | none => simp
  | some _ => simp

theorem tryFewer_isSome {rest : Nat -> Option Nat} {s n : Nat} :
    (tryFewer rest s n).isSome <->
      exists i, i <= n ∧ (rest (s + i)).isSome := by
  induction n with
  | zero => simp [tryFewer]
  | succ n ih =>
      rw [tryFewer, isSome_orElse, ih]
      constructor
      · rintro (h | ⟨i, hi, h⟩)
        · exact ⟨n + 1, Nat.le_refl _, h⟩
        · exact ⟨i, Nat.le_succ_of_le hi, h⟩
      · rintro ⟨i, hi, h⟩
        rcases Nat.le_or_eq_of_le_succ hi with hlt | rfl
        · exact Or.inr ⟨i, hlt, h⟩
        · exact Or.inl h

theorem maxExpand_isSome {mem : Memory} {srcEnd s : Nat}
    {rest : Nat -> Option Nat} {p ep : List UInt8} (hs : s <= srcEnd) :
    (maxExpand mem srcEnd rest s p ep).isSome <->
      exists i, Repeats mem srcEnd p ep s i ∧ (rest (s + i)).isSome := by
  rw [maxExpand, tryFewer_isSome]
  apply exists_congr
  intro i
  rw [le_expandCount_iff (Nat.add_sub_cancel' hs)]

theorem minExpand_isSome {mem : Memory} {srcEnd : Nat}
    {rest : Nat -> Option Nat} {p ep : List UInt8} {n : Nat} :
    forall {s : Nat}, s + n = srcEnd ->
      ((minExpand mem rest p ep n s).isSome <->
        exists i, Repeats mem srcEnd p ep s i ∧ (rest (s + i)).isSome) := by
  induction n with
  | zero =>
      intro s hs
      rw [minExpand]
      constructor
      · intro h
        exact ⟨0, repeats_zero, h⟩
      · rintro ⟨i, hrepeats, h⟩
        have hi : i = 0 := by
          have := hrepeats.le (Nat.le_of_eq hs)
          omega
        rwa [hi] at h
  | succ n ih =>
      intro s hs
      have hin : s < srcEnd := by omega
      rw [minExpand, isSome_orElse]
      constructor
      · rintro (h | h)
        · exact ⟨0, repeats_zero, h⟩
        · split at h
          · rename_i hsingle
            rcases (ih (by omega)).mp h with ⟨i, hrepeats, hrest⟩
            refine ⟨i + 1, repeats_succ.mpr ⟨⟨hin, hsingle⟩, hrepeats⟩, ?_⟩
            rwa [Nat.add_right_comm, Nat.add_assoc] at hrest
          · cases h
      · rintro ⟨i, hrepeats, hrest⟩
        cases i with
        | zero => exact Or.inl hrest
        | succ i =>
            rcases repeats_succ.mp hrepeats with ⟨⟨-, hsingle⟩, hmore⟩
            refine Or.inr ?_
            rw [if_pos hsingle]
            refine (ih (by omega)).mpr ⟨i, hmore, ?_⟩
            rwa [Nat.add_right_comm, Nat.add_assoc]

/-- The last branch of `match`, with `go` for the calls it makes. -/
def matchItem (mem : Memory) (srcEnd : Nat)
    (go : Nat -> List UInt8 -> Option Nat) (s : Nat)
    (p : List UInt8) : Option Nat :=
  match classend p with
  | none => none
  | some ep =>
      let m := s < srcEnd && singlematch (mem s) p ep
      match ep with
      | 0x3f :: rest =>
          if m then (go (s + 1) rest).orElse (fun _ => go s rest)
          else go s rest
      | 0x2a :: rest => maxExpand mem srcEnd (fun s => go s rest) s p ep
      | 0x2b :: rest =>
          if m then maxExpand mem srcEnd (fun s => go s rest) (s + 1) p ep
          else none
      | 0x2d :: rest =>
          minExpand mem (fun s => go s rest) p ep (srcEnd - s) s
      | _ => if m then go (s + 1) ep else none

theorem matchPattern_eq_matchItem {mem : Memory} {srcInit srcEnd n s : Nat}
    {p : List UInt8} (hitem : IsItem p) :
    matchPattern mem srcInit srcEnd (n + 1) s p =
      matchItem mem srcEnd (matchPattern mem srcInit srcEnd n) s p := by
  rw [matchPattern]
  · rfl
  · rintro rfl
    exact hitem
  · rintro args rfl
    exact hitem
  · rintro set rfl
    exact hitem
  · rintro rfl
    exact hitem

theorem matchItem_isSome {mem : Memory} {srcEnd s : Nat}
    {go : Nat -> List UInt8 -> Option Nat} {p ep : List UInt8}
    (hep : classend p = some ep) (hs : s <= srcEnd) :
    (matchItem mem srcEnd go s p).isSome <->
      exists i, Allows ep i ∧ Repeats mem srcEnd p ep s i ∧
        (go (s + i) (behindQuantifier ep)).isSome := by
  have hm : (s < srcEnd && singlematch (mem s) p ep) = true <->
      Repeats mem srcEnd p ep s 1 := by
    rw [repeats_one, Bool.and_eq_true, decide_eq_true_iff]
  unfold matchItem
  rw [hep]
  dsimp only
  split
  · rename_i rest _
    constructor
    · intro h
      split at h
      · rename_i hone
        rw [isSome_orElse] at h
        rcases h with h | h
        · exact ⟨1, Nat.le_refl 1, hm.mp hone, h⟩
        · exact ⟨0, Nat.zero_le 1, repeats_zero, h⟩
      · exact ⟨0, Nat.zero_le 1, repeats_zero, h⟩
    · rintro ⟨i, hi, hrepeats, h⟩
      rcases Nat.le_one_iff_eq_zero_or_eq_one.mp hi with rfl | rfl
      · split
        · rw [isSome_orElse]
          exact Or.inr h
        · exact h
      · rw [if_pos (hm.mpr hrepeats), isSome_orElse]
        exact Or.inl h
  · rw [maxExpand_isSome hs]
    apply exists_congr
    intro i
    exact (and_iff_right trivial).symm
  · rename_i rest _
    constructor
    · intro h
      split at h
      · rename_i hone
        have hin := (repeats_one.mp (hm.mp hone)).1
        rcases (maxExpand_isSome hin).mp h with ⟨i, hrepeats, hrest⟩
        refine ⟨i + 1, Nat.succ_le_succ (Nat.zero_le i), ?_, ?_⟩
        · exact repeats_succ.mpr ⟨repeats_one.mp (hm.mp hone), hrepeats⟩
        · rwa [Nat.succ_add_eq_add_succ] at hrest
      · cases h
    · rintro ⟨i, hi, hrepeats, h⟩
      rcases Nat.exists_eq_succ_of_ne_zero (Nat.ne_of_gt hi) with ⟨i, rfl⟩
      rcases repeats_succ.mp hrepeats with ⟨hfirst, hmore⟩
      rw [if_pos (hm.mpr (repeats_one.mpr hfirst)), maxExpand_isSome hfirst.1]
      refine ⟨i, hmore, ?_⟩
      rwa [Nat.succ_add_eq_add_succ]
  · rw [minExpand_isSome (Nat.add_sub_cancel' hs)]
    apply exists_congr
    intro i
    exact (and_iff_right trivial).symm
  · rename_i hopt hstar hplus hlazy
    have hallows : forall i, Allows ep i <-> i = 1 := by
      intro i
      unfold Allows
      split <;> simp_all
    have hbehind : behindQuantifier ep = ep := by
      unfold behindQuantifier
      split <;> simp_all
    rw [hbehind]
    constructor
    · intro h
      split at h
      · rename_i hone
        exact ⟨1, (hallows 1).mpr rfl, hm.mp hone, h⟩
      · cases h
    · rintro ⟨i, hi, hrepeats, h⟩
      rw [hallows] at hi
      subst hi
      rwa [if_pos (hm.mpr hrepeats)]

/-!
## Acceptance

`edge` is what a frontier at the end of the slice finds there, if anything.
-/

/-- The byte that a frontier finds at `s`. -/
def nextByte (mem : Memory) (srcEnd : Nat) (edge : Option UInt8)
    (s : Nat) : Option UInt8 :=
  if s < srcEnd then some (mem s) else edge

def previousByte (mem : Memory) (srcInit s : Nat) : UInt8 :=
  if s = srcInit then 0 else mem (s - 1)

/-- The set that `ep` follows begins at `s`. -/
def Frontier (mem : Memory) (srcInit srcEnd : Nat) (edge : Option UInt8)
    (set ep : List UInt8) (s : Nat) : Prop :=
  matchbracketclass (previousByte mem srcInit s) set ep = false ∧
    exists c, nextByte mem srcEnd edge s = some c ∧
      matchbracketclass c set ep = true

inductive AcceptsPattern (mem : Memory) (srcInit srcEnd : Nat)
    (edge : Option UInt8) : Nat -> List UInt8 -> Prop where
  | finish (s : Nat) : AcceptsPattern mem srcInit srcEnd edge s []
  | stop : AcceptsPattern mem srcInit srcEnd edge srcEnd [0x24]
  | balance {s s' : Nat} {args : List UInt8} :
      matchbalance mem srcEnd s args = some s' ->
      AcceptsPattern mem srcInit srcEnd edge s' (args.drop 2) ->
      AcceptsPattern mem srcInit srcEnd edge s (0x25 :: 0x62 :: args)
  | frontier {s : Nat} {set ep : List UInt8} :
      classend (0x5b :: set) = some ep ->
      Frontier mem srcInit srcEnd edge (0x5b :: set) ep s ->
      AcceptsPattern mem srcInit srcEnd edge s ep ->
      AcceptsPattern mem srcInit srcEnd edge s (0x25 :: 0x66 :: 0x5b :: set)
  | item {s i : Nat} {p ep : List UInt8} :
      IsItem p -> classend p = some ep -> Allows ep i ->
      Repeats mem srcEnd p ep s i ->
      AcceptsPattern mem srcInit srcEnd edge (s + i) (behindQuantifier ep) ->
      AcceptsPattern mem srcInit srcEnd edge s p

section

variable {mem : Memory} {srcInit srcEnd : Nat} {edge : Option UInt8}

theorem acceptsPattern_item_iff {s : Nat} {p : List UInt8} (hitem : IsItem p) :
    AcceptsPattern mem srcInit srcEnd edge s p <->
      exists ep, classend p = some ep ∧
        exists i, Allows ep i ∧ Repeats mem srcEnd p ep s i ∧
          AcceptsPattern mem srcInit srcEnd edge (s + i) (behindQuantifier ep) := by
  constructor
  · intro h
    cases h with
    | finish => exact False.elim hitem
    | stop => exact False.elim hitem
    | balance => exact False.elim hitem
    | frontier => exact False.elim hitem
    | item _ hep hallows hrepeats h => exact ⟨_, hep, _, hallows, hrepeats, h⟩
  · rintro ⟨ep, hep, i, hallows, hrepeats, h⟩
    exact AcceptsPattern.item hitem hep hallows hrepeats h

theorem acceptsPattern_balance_iff {s : Nat} {args : List UInt8} :
    AcceptsPattern mem srcInit srcEnd edge s (0x25 :: 0x62 :: args) <->
      exists s', matchbalance mem srcEnd s args = some s' ∧
        AcceptsPattern mem srcInit srcEnd edge s' (args.drop 2) := by
  constructor
  · intro h
    cases h with
    | balance hs h => exact ⟨_, hs, h⟩
    | item hitem => exact False.elim hitem
  · rintro ⟨s', hs, h⟩
    exact AcceptsPattern.balance hs h

theorem acceptsPattern_frontier_iff {s : Nat} {set : List UInt8} :
    AcceptsPattern mem srcInit srcEnd edge s (0x25 :: 0x66 :: set) <->
      exists ep, set.head? = some 0x5b ∧ classend set = some ep ∧
        Frontier mem srcInit srcEnd edge set ep s ∧
        AcceptsPattern mem srcInit srcEnd edge s ep := by
  constructor
  · intro h
    cases h with
    | frontier hep hfrontier h => exact ⟨_, rfl, hep, hfrontier, h⟩
    | item hitem => exact False.elim hitem
  · rintro ⟨ep, hset, hep, hfrontier, h⟩
    rcases List.head?_eq_some_iff.mp hset with ⟨rest, rfl⟩
    exact AcceptsPattern.frontier hep hfrontier h

theorem acceptsPattern_stop_iff {s : Nat} :
    AcceptsPattern mem srcInit srcEnd edge s [0x24] <-> s = srcEnd := by
  constructor
  · intro h
    cases h with
    | stop => rfl
    | item hitem => exact False.elim hitem
  · rintro rfl
    exact AcceptsPattern.stop

end

/-!
## The matcher accepts
-/

theorem matchbalanceLoop_le {mem : Memory} {b e : UInt8} {n : Nat} :
    forall {s cont s' : Nat}, matchbalanceLoop mem b e n s cont = some s' ->
      s < s' ∧ s' <= s + n := by
  induction n with
  | zero =>
      intro s cont s' h
      cases h
  | succ n ih =>
      intro s cont s' h
      rw [matchbalanceLoop] at h
      split at h
      · split at h
        · cases h
          omega
        · have := ih h
          omega
      · split at h
        · have := ih h
          omega
        · have := ih h
          omega

/-- What a balanced item takes stands in the slice. -/
theorem matchbalance_le {mem : Memory} {srcEnd s s' : Nat}
    {args : List UInt8} (h : matchbalance mem srcEnd s args = some s') :
    s < s' ∧ s' <= srcEnd := by
  fun_cases matchbalance mem srcEnd s args with
  | case1 => simp_all [matchbalance]
  | case2 b e _ _ =>
      have hloop : matchbalanceLoop mem b e (srcEnd - (s + 1)) (s + 1) 1 =
          some s' := by
        simpa [matchbalance, *] using h
      have := matchbalanceLoop_le hloop
      omega
  | case3 => simp_all [matchbalance]

section

variable {mem : Memory} {srcInit srcEnd n s : Nat}

theorem matchPattern_balance_isSome {args : List UInt8} :
    (matchPattern mem srcInit srcEnd (n + 1) s (0x25 :: 0x62 :: args)).isSome <->
      exists s', matchbalance mem srcEnd s args = some s' ∧
        (matchPattern mem srcInit srcEnd n s' (args.drop 2)).isSome := by
  rw [matchPattern]
  cases matchbalance mem srcEnd s args with
  | none => simp
  | some s' => simp

theorem matchPattern_frontier (set : List UInt8) :
    matchPattern mem srcInit srcEnd (n + 1) s (0x25 :: 0x66 :: set) =
      match set with
      | 0x5b :: _ =>
          match classend set with
          | none => none
          | some ep =>
              if matchbracketclass (previousByte mem srcInit s) set ep ||
                  !matchbracketclass (mem s) set ep then
                none
              else
                matchPattern mem srcInit srcEnd n s ep
      | _ => none := by
  rfl

theorem matchPattern_frontier_isSome {set : List UInt8} (hs : s <= srcEnd) :
    (matchPattern mem srcInit srcEnd (n + 1) s
        (0x25 :: 0x66 :: set)).isSome <->
      exists ep, set.head? = some 0x5b ∧ classend set = some ep ∧
        Frontier mem srcInit srcEnd (some (mem srcEnd)) set ep s ∧
        (matchPattern mem srcInit srcEnd n s ep).isSome := by
  have hnext : nextByte mem srcEnd (some (mem srcEnd)) s = some (mem s) := by
    unfold nextByte
    split
    · rfl
    · rw [Nat.le_antisymm hs (Nat.not_lt.mp ‹_›)]
  have hfrontier : forall ep,
      Frontier mem srcInit srcEnd (some (mem srcEnd)) set ep s <->
        ¬ (matchbracketclass (previousByte mem srcInit s) set ep ||
          !matchbracketclass (mem s) set ep) = true := by
    intro ep
    simp [Frontier, hnext]
  rw [matchPattern_frontier]
  constructor
  · intro h
    split at h
    · split at h
      · cases h
      · rename_i ep hep
        split at h
        · cases h
        · rename_i hholds
          exact ⟨ep, rfl, hep, (hfrontier ep).mpr hholds, h⟩
    · cases h
  · rintro ⟨ep, hset, hep, hholds, h⟩
    rcases List.head?_eq_some_iff.mp hset with ⟨rest, rfl⟩
    rw [hep]
    dsimp only
    rw [if_neg ((hfrontier ep).mp hholds)]
    exact h

end

/-- The matcher finds a match exactly when the pattern is accepted. -/
theorem matchPattern_isSome_iff {mem : Memory} {srcInit srcEnd n : Nat} :
    forall {s : Nat} {p : List UInt8}, p.length < n -> s <= srcEnd ->
      ((matchPattern mem srcInit srcEnd n s p).isSome <->
        AcceptsPattern mem srcInit srcEnd (some (mem srcEnd)) s p) := by
  induction n with
  | zero =>
      intro s p h
      cases h
  | succ n ih =>
      intro s p hp hs
      by_cases hitem : IsItem p
      · rw [matchPattern_eq_matchItem hitem, acceptsPattern_item_iff hitem]
        cases hep : classend p with
        | none => simp [matchItem, hep]
        | some ep =>
            rw [matchItem_isSome hep hs]
            simp only [Option.some_inj, exists_eq_left']
            apply exists_congr
            intro i
            apply and_congr_right
            intro _
            apply and_congr_right
            intro hrepeats
            have hlength := classend_length hep
            have hbehind := behindQuantifier_length ep
            exact ih (by omega) (hrepeats.le hs)
      · rcases not_isItem hitem with rfl | rfl | ⟨args, rfl⟩ | ⟨set, rfl⟩
        · exact iff_of_true rfl (AcceptsPattern.finish s)
        · rw [acceptsPattern_stop_iff, matchPattern]
          split
          · exact iff_of_true rfl ‹_›
          · rename_i hne
            exact iff_of_false Bool.false_ne_true hne
        · rw [matchPattern_balance_isSome, acceptsPattern_balance_iff]
          apply exists_congr
          intro s'
          apply and_congr_right
          intro hbalance
          simp only [List.length_cons] at hp
          exact ih (by rw [List.length_drop]; omega)
            (matchbalance_le hbalance).2
        · rw [matchPattern_frontier_isSome hs, acceptsPattern_frontier_iff]
          apply exists_congr
          intro ep
          apply and_congr_right
          intro _
          apply and_congr_right
          intro hep
          apply and_congr_right
          intro _
          have hlength := classend_length hep
          simp only [List.length_cons] at hp
          exact ih (by omega) hs

theorem matchItem_congr {mem : Memory} {srcEnd s : Nat} {p : List UInt8}
    {go go' : Nat -> List UInt8 -> Option Nat}
    (h : forall s q, q.length < p.length -> go s q = go' s q) :
    matchItem mem srcEnd go s p = matchItem mem srcEnd go' s p := by
  unfold matchItem
  cases hep : classend p with
  | none => rfl
  | some ep =>
      have hlength := classend_length hep
      have hep_eq : forall s, go s ep = go' s ep := fun s => h s ep hlength
      have hrest : forall x rest, ep = x :: rest ->
          (fun s => go s rest) = fun s => go' s rest := by
        rintro x rest rfl
        funext s
        exact h s rest (Nat.lt_of_succ_lt hlength)
      dsimp only
      split
      · rename_i hep
        have hgo := hrest _ _ rfl
        rw [congrFun hgo s, congrFun hgo (s + 1)]
      · rw [hrest _ _ rfl]
      · rw [hrest _ _ rfl]
      · rw [hrest _ _ rfl]
      · rw [hep_eq]

/-- The recursion is bounded: with more than the length of the pattern to
spend, what is left over makes no difference. -/
theorem matchPattern_fuel {mem : Memory} {srcInit srcEnd n : Nat} :
    forall {m s : Nat} {p : List UInt8}, p.length < n -> p.length < m ->
      matchPattern mem srcInit srcEnd m s p =
        matchPattern mem srcInit srcEnd n s p := by
  induction n with
  | zero =>
      intro m s p h
      cases h
  | succ n ih =>
      intro m s p hn hm
      rcases Nat.exists_eq_succ_of_ne_zero (Nat.ne_zero_of_lt hm) with ⟨m, rfl⟩
      by_cases hitem : IsItem p
      · rw [matchPattern_eq_matchItem hitem, matchPattern_eq_matchItem hitem]
        apply matchItem_congr
        intro s q hq
        exact ih (by omega) (by omega)
      · rcases not_isItem hitem with rfl | rfl | ⟨args, rfl⟩ | ⟨set, rfl⟩
        · rw [matchPattern, matchPattern]
        · rw [matchPattern, matchPattern]
        · rw [matchPattern, matchPattern]
          cases matchbalance mem srcEnd s args with
          | none => rfl
          | some s' =>
              simp only [List.length_cons] at hn hm
              exact ih (by rw [List.length_drop]; omega)
                (by rw [List.length_drop]; omega)
        · rw [matchPattern_frontier, matchPattern_frontier]
          split
          · split
            · rfl
            · rename_i hep
              have hlength := classend_length hep
              simp only [List.length_cons] at hn hm hlength
              split
              · rfl
              · exact ih (by omega) (by omega)
          · rfl

/-!
## The whole slice
-/

theorem matchFrom_iff {mem : Memory} {srcInit srcEnd n : Nat} {anchor : Bool}
    {p : List UInt8} : forall {s : Nat}, s <= srcEnd -> srcEnd < s + n ->
      (matchFrom mem srcInit srcEnd anchor p n s = true <->
        exists i, s + i <= srcEnd ∧ (anchor = true -> i = 0) ∧
          AcceptsPattern mem srcInit srcEnd (some (mem srcEnd)) (s + i) p) := by
  induction n with
  | zero =>
      intro s hle hn
      exact absurd hn (Nat.not_lt.mpr hle)
  | succ n ih =>
      intro s hle hn
      rw [matchFrom]
      split
      · rename_i h
        rw [matchPattern_isSome_iff (Nat.lt_succ_self _) hle] at h
        exact iff_of_true rfl ⟨0, hle, fun _ => rfl, h⟩
      · rename_i h
        rw [matchPattern_isSome_iff (Nat.lt_succ_self _) hle] at h
        split
        · rename_i hmore
          rw [Bool.and_eq_true, decide_eq_true_iff, Bool.not_eq_true'] at hmore
          rw [ih hmore.1 (by omega)]
          constructor
          · rintro ⟨i, hi, hanchor, haccepts⟩
            rw [Nat.succ_add_eq_add_succ] at hi haccepts
            refine ⟨i + 1, hi, ?_, haccepts⟩
            rw [hmore.2]
            exact nofun
          · rintro ⟨i, hi, hanchor, haccepts⟩
            cases i with
            | zero => exact absurd haccepts h
            | succ i =>
                rw [← Nat.succ_add_eq_add_succ] at hi haccepts
                refine ⟨i, hi, ?_, haccepts⟩
                rw [hmore.2]
                exact nofun
        · rename_i hlast
          apply iff_of_false Bool.false_ne_true
          rintro ⟨i, hi, hanchor, haccepts⟩
          have hi : i = 0 := by
            cases anchor with
            | true => exact hanchor rfl
            | false =>
                simp at hlast
                omega
          subst hi
          exact h haccepts

/-- The pattern behind an anchor, and whether there is one. -/
def unanchored : List UInt8 -> List UInt8
  | 0x5e :: p => p
  | p => p

def isAnchored : List UInt8 -> Bool
  | 0x5e :: _ => true
  | _ => false

/-- Some position of the slice accepts the pattern, the first if anchored. -/
def AcceptsSlice (mem : Memory) (srcInit srcEnd : Nat)
    (edge : Option UInt8) (p : List UInt8) : Prop :=
  exists i, srcInit + i <= srcEnd ∧ (isAnchored p = true -> i = 0) ∧
    AcceptsPattern mem srcInit srcEnd edge (srcInit + i) (unanchored p)

theorem unanchored_of_ne {p : List UInt8} (h : forall q, p ≠ 0x5e :: q) :
    unanchored p = p := by
  unfold unanchored
  split
  · exact absurd rfl (h _)
  · rfl

theorem isAnchored_of_ne {p : List UInt8} (h : forall q, p ≠ 0x5e :: q) :
    isAnchored p = false := by
  unfold isAnchored
  split
  · exact absurd rfl (h _)
  · rfl

theorem lsbStringMatch_iff {mem : Memory} {s len : Nat} {p : List UInt8} :
    lsbStringMatch mem ⟨some s, len⟩ p = true <->
      AcceptsSlice mem s (s + len) (some (mem (s + len))) p := by
  unfold lsbStringMatch AcceptsSlice
  dsimp only
  split
  · exact matchFrom_iff (by omega) (by omega)
  · rename_i hne
    rw [unanchored_of_ne hne, isAnchored_of_ne hne]
    exact matchFrom_iff (by omega) (by omega)

end Util
end LuaSandbox
