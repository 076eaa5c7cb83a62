import LuaSandbox.Foundation.Decimal

/-!
# The escapes of a Lua string

The texts that split into ordinary bytes and escapes, what they denote, and the
texts in which a scan meets an invalid escape.
-/

namespace LuaSandbox
namespace Util

open Foundation

namespace Unescape

/-- The letters for control characters. -/
def controlEscape : UInt8 -> Option UInt8
  | 0x61 => some 7
  | 0x62 => some 8
  | 0x66 => some 12
  | 0x6e => some 10
  | 0x72 => some 13
  | 0x74 => some 9
  | 0x76 => some 11
  | _ => none

/-- A quote, an apostrophe, a question mark or a backslash. -/
def standsForItself (c : UInt8) : Bool :=
  c = 0x22 || c = 0x27 || c = 0x3f || c = 0x5c

/-- What a single byte behind a backslash denotes. -/
def letterEscape (c : UInt8) : Option UInt8 :=
  match controlEscape c with
  | some b => some b
  | none => if standsForItself c then some c else none

/-- At most `n` digits, and no digit behind fewer of them. -/
structure DigitRun (n : Nat) (ds rest : List UInt8) : Prop where
  digits : AllDigits ds
  nonempty : ds ≠ []
  short : ds.length <= n
  maximal : ds.length < n ->
    forall c, rest.head? = some c -> isDigit c = false

/-- The text behind a backslash, the byte denoted and the text that is left. -/
inductive Escape : List UInt8 -> UInt8 -> List UInt8 -> Prop where
  | letter {c b : UInt8} {rest : List UInt8} (h : letterEscape c = some b) :
      Escape (c :: rest) b rest
  | decimal {ds rest : List UInt8} (h : DigitRun 3 ds rest)
      (hvalue : (digits 0 ds).1 <= 255) :
      Escape (ds ++ rest) (UInt8.ofNat (digits 0 ds).1) rest

/-- A text split into ordinary bytes and escapes, and what it denotes. -/
inductive Unescapes : List UInt8 -> List UInt8 -> Prop where
  | nil : Unescapes [] []
  | byte {c : UInt8} {s t : List UInt8} (hc : c ≠ 0x5c)
      (h : Unescapes s t) : Unescapes (c :: s) (c :: t)
  | escape {b : UInt8} {r s t : List UInt8} (he : Escape r b s)
      (h : Unescapes s t) : Unescapes (0x5c :: r) (b :: t)

/-- A text behind a backslash that is no escape, and the number of digits that
show it. -/
inductive Invalid : List UInt8 -> Nat -> Prop where
  | nil : Invalid [] 0
  | letter {c : UInt8} {rest : List UInt8} (hdigit : isDigit c = false)
      (h : letterEscape c = none) : Invalid (c :: rest) 0
  | decimal {ds rest : List UInt8} (h : DigitRun 3 ds rest)
      (hvalue : 255 < (digits 0 ds).1) : Invalid (ds ++ rest) ds.length

/-- The scan of a text meets an invalid escape within `n` positions. -/
inductive RejectedWithin : Nat -> List UInt8 -> Prop where
  | byte {n : Nat} {c : UInt8} {s : List UInt8} (hc : c ≠ 0x5c)
      (h : RejectedWithin n s) : RejectedWithin (n + 1) (c :: s)
  | escape {n : Nat} {b : UInt8} {q s : List UInt8} (he : Escape (q ++ s) b s)
      (h : RejectedWithin n s) :
      RejectedWithin (n + q.length + 1) (0x5c :: (q ++ s))
  | invalid {n m : Nat} {r : List UInt8} (h : Invalid r m) (hm : m < n) :
      RejectedWithin n (0x5c :: r)

/-!
## Runs of digits
-/

theorem controlEscape_digit {c : UInt8} (h : isDigit c = true) :
    controlEscape c = none := by
  unfold controlEscape
  split
  case h_8 => rfl
  all_goals exact absurd h (by decide)

theorem standsForItself_digit {c : UInt8} (h : isDigit c = true) :
    standsForItself c = false := by
  by_contra hc
  rw [Bool.not_eq_false, standsForItself] at hc
  simp only [Bool.or_eq_true, decide_eq_true_eq] at hc
  rcases hc with ((rfl | rfl) | rfl) | rfl
  all_goals exact absurd h (by decide)

theorem letterEscape_digit {c : UInt8} (h : isDigit c = true) :
    letterEscape c = none := by
  unfold letterEscape
  rw [controlEscape_digit h, standsForItself_digit h]
  rfl

theorem DigitRun.head {n : Nat} {ds rest : List UInt8}
    (h : DigitRun n ds rest) :
    exists d, (ds ++ rest).head? = some d ∧ isDigit d = true := by
  cases ds with
  | nil => exact absurd rfl h.nonempty
  | cons d ds => exact ⟨d, rfl, h.digits d List.mem_cons_self⟩

theorem DigitRun.single {n : Nat} {d : UInt8} {rest : List UInt8}
    (hd : isDigit d = true) (hn : 1 <= n)
    (h : 1 < n -> forall c, rest.head? = some c -> isDigit c = false) :
    DigitRun n [d] rest where
  digits := by
    intro b hb
    rw [List.mem_singleton.mp hb]
    exact hd
  nonempty := List.cons_ne_nil d []
  short := hn
  maximal := h

theorem DigitRun.cons {n : Nat} {d : UInt8} {ds rest : List UInt8}
    (hd : isDigit d = true) (h : DigitRun n ds rest) :
    DigitRun (n + 1) (d :: ds) rest where
  digits := by
    intro b hb
    rcases List.mem_cons.mp hb with rfl | hb
    · exact hd
    · exact h.digits b hb
  nonempty := List.cons_ne_nil d ds
  short := Nat.succ_le_succ h.short
  maximal := fun hlt => h.maximal (Nat.lt_of_succ_lt_succ hlt)

theorem DigitRun.tail {n : Nat} {c d : UInt8} {ds rest : List UInt8}
    (h : DigitRun (n + 1) (c :: d :: ds) rest) :
    DigitRun n (d :: ds) rest where
  digits := AllDigits.tail h.digits
  nonempty := List.cons_ne_nil d ds
  short := Nat.le_of_succ_le_succ h.short
  maximal := fun hlt => h.maximal (Nat.succ_lt_succ hlt)

/-- A text that starts with a digit starts with a run of them. -/
theorem exists_digitRun (n : Nat) : forall (b : UInt8) (r : List UInt8),
    isDigit b = true ->
      exists ds rest, b :: r = ds ++ rest ∧ DigitRun (n + 1) ds rest := by
  induction n with
  | zero =>
      intro b r hb
      exact ⟨[b], r, rfl, DigitRun.single hb (Nat.le_refl 1)
        (fun h => absurd h (Nat.lt_irrefl 1))⟩
  | succ n ih =>
      intro b r hb
      cases r with
      | nil =>
          refine ⟨[b], [], rfl, DigitRun.single hb (Nat.succ_pos _) ?_⟩
          intro h c hc
          cases hc
      | cons c r =>
          by_cases hc : isDigit c = true
          · rcases ih c r hc with ⟨ds, rest, hsplit, hrun⟩
            exact ⟨b :: ds, rest, by rw [hsplit, List.cons_append],
              hrun.cons hb⟩
          · refine ⟨[b], c :: r, rfl,
              DigitRun.single hb (Nat.succ_pos _) ?_⟩
            intro h c' hc'
            cases hc'
            exact Bool.not_eq_true _ ▸ hc

/-!
## One decoding at most
-/

theorem DigitRun.length_le {n : Nat} {ds es r s : List UInt8}
    (hds : DigitRun n ds r) (hes : DigitRun n es s)
    (h : ds ++ r = es ++ s) : es.length <= ds.length := by
  apply Nat.le_of_not_lt
  intro hlt
  -- the first digit of `es` behind `ds` is a digit behind a shorter run
  have hget : es[ds.length]? = r.head? := by
    have hright : (es ++ s)[ds.length]? = es[ds.length]? :=
      List.getElem?_append_left hlt
    have hleft : (ds ++ r)[ds.length]? = r[0]? := by
      rw [List.getElem?_append_right (Nat.le_refl _), Nat.sub_self]
    rw [<- hright, <- h, hleft, List.head?_eq_getElem?]
  have hnone : isDigit es[ds.length] = false := by
    apply hds.maximal (Nat.lt_of_lt_of_le hlt hes.short)
    rw [<- hget, List.getElem?_eq_getElem hlt]
  have hdigit := hes.digits _ (List.getElem_mem hlt)
  rw [hnone] at hdigit
  cases hdigit

theorem DigitRun.unique {n : Nat} {ds es r s : List UInt8}
    (hds : DigitRun n ds r) (hes : DigitRun n es s)
    (h : ds ++ r = es ++ s) : ds = es ∧ r = s :=
  List.append_inj h
    (Nat.le_antisymm (hes.length_le hds h.symm) (hds.length_le hes h))

/-- A letter does not begin a run of digits. -/
theorem DigitRun.not_letter {ds rest : List UInt8} {c b : UInt8}
    {s : List UInt8} (h : DigitRun 3 ds rest) (hc : letterEscape c = some b)
    (heq : ds ++ rest = c :: s) : False := by
  rcases h.head with ⟨d, hd, hdigit⟩
  rw [heq] at hd
  cases hd
  rw [letterEscape_digit hdigit] at hc
  cases hc

theorem Escape.unique {r r' s s' : List UInt8} {b b' : UInt8}
    (h : Escape r b s) (h' : Escape r' b' s') (hr : r = r') :
    b = b' ∧ s = s' := by
  cases h with
  | letter hb =>
      cases h' with
      | letter hb' =>
          cases hr
          rw [hb] at hb'
          exact ⟨Option.some.inj hb', rfl⟩
      | decimal hrun' hvalue' => exact (hrun'.not_letter hb hr.symm).elim
  | decimal hrun hvalue =>
      cases h' with
      | letter hb' => exact (hrun.not_letter hb' hr).elim
      | decimal hrun' hvalue' =>
          rcases hrun.unique hrun' hr with ⟨rfl, rfl⟩
          exact ⟨rfl, rfl⟩

/-!
## Texts that split and texts that are rejected
-/

theorem Escape.split {r s : List UInt8} {b : UInt8} (h : Escape r b s) :
    exists q, r = q ++ s := by
  cases h with
  | @letter c b rest h => exact ⟨[c], rfl⟩
  | @decimal ds rest h hvalue => exact ⟨ds, rfl⟩

/-- The text behind a backslash is an escape or invalid. -/
theorem escape_or_invalid (r : List UInt8) :
    (exists b q s, r = q ++ s ∧ Escape (q ++ s) b s) ∨
      exists m, Invalid r m := by
  cases r with
  | nil => exact Or.inr ⟨0, Invalid.nil⟩
  | cons c r =>
      by_cases hdigit : isDigit c = true
      · rcases exists_digitRun 2 c r hdigit with ⟨ds, rest, hsplit, hrun⟩
        rw [hsplit]
        by_cases hvalue : 255 < (digits 0 ds).1
        · exact Or.inr ⟨ds.length, Invalid.decimal hrun hvalue⟩
        · exact Or.inl ⟨_, ds, rest, rfl,
            Escape.decimal hrun (Nat.le_of_not_lt hvalue)⟩
      · cases hletter : letterEscape c with
        | some b => exact Or.inl ⟨b, [c], r, rfl, Escape.letter hletter⟩
        | none =>
            exact Or.inr ⟨0,
              Invalid.letter (Bool.not_eq_true _ ▸ hdigit) hletter⟩

theorem Invalid.length_le {r : List UInt8} {m : Nat} (h : Invalid r m) :
    m <= r.length := by
  cases h with
  | nil => exact Nat.le_refl 0
  | letter hdigit h => exact Nat.zero_le _
  | decimal h hvalue =>
      rw [List.length_append]
      exact Nat.le_add_right _ _

theorem Invalid.not_escape {r r' s : List UInt8} {b : UInt8} {m : Nat}
    (h : Invalid r m) (he : Escape r' b s) (hr : r' = r) : False := by
  cases he with
  | letter hletter =>
      cases h with
      | nil => cases hr
      | letter hdigit hnone =>
          cases hr
          rw [hletter] at hnone
          cases hnone
      | decimal hrun hvalue => exact hrun.not_letter hletter hr.symm
  | decimal hrun hle =>
      cases h with
      | nil =>
          rcases hrun.head with ⟨d, hd, -⟩
          rw [hr] at hd
          cases hd
      | letter hdigit hnone =>
          rcases hrun.head with ⟨d, hd, hd'⟩
          rw [hr] at hd
          cases hd
          rw [hdigit] at hd'
          cases hd'
      | decimal hrun' hvalue =>
          rcases hrun.unique hrun' hr with ⟨rfl, -⟩
          exact absurd hvalue (Nat.not_lt.mpr hle)

theorem RejectedWithin.not_unescapes {n : Nat} {s : List UInt8}
    (h : RejectedWithin n s) : forall t, ¬ Unescapes s t := by
  induction h with
  | byte hc h ih =>
      intro t ht
      cases ht with
      | byte hc' h' => exact ih _ h'
      | escape he h' => exact hc rfl
  | escape he h ih =>
      intro t ht
      cases ht with
      | byte hc h' => exact hc rfl
      | escape he' h' =>
          rcases he.unique he' rfl with ⟨-, rfl⟩
          exact ih _ h'
  | invalid h hm =>
      intro t ht
      cases ht with
      | byte hc h' => exact hc rfl
      | escape he h' => exact h.not_escape he rfl

/-- A text that does not split is rejected within its length. -/
theorem rejectedWithin_of_not_unescapes (k : Nat) : forall (n : Nat)
    (s : List UInt8), s.length <= k -> s.length <= n ->
      (forall t, ¬ Unescapes s t) -> RejectedWithin n s := by
  induction k with
  | zero =>
      intro n s hk hn h
      rw [List.length_eq_zero_iff.mp (Nat.le_zero.mp hk)] at h
      exact absurd Unescapes.nil (h [])
  | succ k ih =>
      intro n s hk hn h
      cases s with
      | nil => exact absurd Unescapes.nil (h [])
      | cons c s =>
          rw [List.length_cons] at hk hn
          cases n with
          | zero => exact absurd hn (Nat.not_succ_le_zero _)
          | succ n =>
              have hk' := Nat.le_of_succ_le_succ hk
              have hn' := Nat.le_of_succ_le_succ hn
              by_cases hc : c = 0x5c
              · subst hc
                rcases escape_or_invalid s with ⟨b, q, r, rfl, he⟩ | ⟨m, hm⟩
                · rw [List.length_append] at hk' hn'
                  have hrest : RejectedWithin (n - q.length) r :=
                    ih (n - q.length) r
                      (Nat.le_trans (Nat.le_add_left _ _) hk')
                      (Nat.le_sub_of_add_le' hn')
                      (fun t ht => h (b :: t) (Unescapes.escape he ht))
                  have hroom := RejectedWithin.escape he hrest
                  rwa [Nat.sub_add_cancel
                    (Nat.le_trans (Nat.le_add_right _ _) hn')] at hroom
                · exact RejectedWithin.invalid hm
                    (Nat.lt_succ_of_le (Nat.le_trans hm.length_le hn'))
              · exact RejectedWithin.byte hc (ih n s hk' hn'
                  (fun t ht => h (c :: t) (Unescapes.byte hc ht)))

/-- A text of ordinary bytes is not rejected. -/
theorem RejectedWithin.not_ordinary {n : Nat} {s : List UInt8}
    (h : RejectedWithin n s) (hs : 0x5c ∉ s) : False := by
  induction h with
  | byte hc h ih => exact ih (fun hz => hs (List.mem_cons_of_mem _ hz))
  | escape he h ih => exact hs List.mem_cons_self
  | invalid h hm => exact hs List.mem_cons_self

end Unescape
end Util
end LuaSandbox
