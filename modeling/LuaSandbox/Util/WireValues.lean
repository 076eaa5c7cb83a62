import LuaSandbox.Util.HekaMessage

/-!
# Values on the wire

The values of a field record in the layout of the format: strings with a key
each, numbers with one key for a single value or for all of them.
-/

namespace LuaSandbox
namespace Util

open Foundation

/-!
## Varints
-/

/-- The varint of a word ends in front of `q`; it may be longer than it has to
be. -/
def HoldsVarint (mem : Memory) (p word q : Nat) : Prop :=
  lsbPbReadVarint mem p q = some (q, word)

/-- A length is a varint that is not negative. -/
def HoldsLength (mem : Memory) (p n r : Nat) : Prop :=
  HoldsVarint mem p n r ∧ n < 2 ^ 63

section

variable {mem : Memory} {p q r e n w : Nat}

/-- The end that a reader is given does not matter behind the varint. -/
theorem readVarintLoop_end {n : Nat} : forall {p s vi e' : Nat},
    readVarintLoop mem e n p s vi = some (q, w) -> q <= e' ->
      readVarintLoop mem e' n p s vi = some (q, w) := by
  induction n with
  | zero =>
      intro p s vi e' h _
      cases h
  | succ n ih =>
      intro p s vi e' h hle
      have hlt := readVarintLoop_lt h
      unfold readVarintLoop at h ⊢
      rw [if_neg (show p ≠ e' by omega)]
      split at h
      · cases h
      split at h
      · rename_i hlast
        rw [if_pos hlast]
        exact h
      · rename_i hmore
        rw [if_neg hmore]
        exact ih h hle

theorem HoldsVarint.lt (h : HoldsVarint mem p w q) : p < q :=
  readVarintLoop_lt h

theorem HoldsVarint.word_lt (h : HoldsVarint mem p w q) : w < 2 ^ 64 :=
  (lsbPbReadVarint_bounds h (Nat.le_of_lt h.lt)).2.2

theorem HoldsVarint.read (h : HoldsVarint mem p w q) (hle : q <= e) :
    lsbPbReadVarint mem p e = some (q, w) :=
  readVarintLoop_end h hle

theorem holdsVarint_of_read (h : lsbPbReadVarint mem p e = some (q, w)) :
    HoldsVarint mem p w q :=
  readVarintLoop_end h (Nat.le_refl q)

theorem toLongLong_neg_iff (h : w < 2 ^ 64) :
    toLongLong w < 0 <-> 2 ^ 63 <= w := by
  unfold toLongLong
  rw [Nat.mod_eq_of_lt h]
  split <;> omega

theorem HoldsLength.lt (h : HoldsLength mem p n r) : p < r :=
  h.1.lt

theorem HoldsLength.not_neg (h : HoldsLength mem p n r) :
    ¬ toLongLong n < 0 := by
  rw [toLongLong_neg_iff h.1.word_lt]
  exact Nat.not_le.mpr h.2

theorem holdsLength_of_read (h : lsbPbReadVarint mem p e = some (r, n))
    (hpos : ¬ toLongLong n < 0) : HoldsLength mem p n r := by
  have hvarint := holdsVarint_of_read h
  rw [toLongLong_neg_iff hvarint.word_lt] at hpos
  exact ⟨hvarint, Nat.lt_of_not_le hpos⟩

theorem HoldsLength.readString (h : HoldsLength mem p n r)
    (hle : r + n <= e) :
    readString mem lsbPbWtLength p e = some (r + n, ⟨some r, n⟩) := by
  have hfits : ¬ (toLongLong n < 0 ∨ e < r + n) := by
    rintro (hneg | hlong)
    · exact h.not_neg hneg
    · omega
  unfold Util.readString
  rw [if_neg (not_not_intro rfl), h.1.read (by omega)]
  exact if_neg hfits

theorem HoldsLength.packedLength (h : HoldsLength mem p n r)
    (hle : r + n <= e) : packedLength mem p e = some r := by
  have hfits : ¬ (toLongLong n < 0 ∨ e < r + n) := by
    rintro (hneg | hlong)
    · exact h.not_neg hneg
    · omega
  unfold Util.packedLength
  rw [h.1.read (by omega)]
  exact if_neg hfits

end

/-!
## Layout
-/

/-- Several varints one behind the other, up to `e`. -/
inductive HoldsVarints (mem : Memory) (e : Nat) : Nat -> List Nat -> Prop where
  | last {p w} : HoldsVarint mem p w e -> HoldsVarints mem e p [w]
  | more {p w q ws} : HoldsVarint mem p w q -> q < e ->
      HoldsVarints mem e q ws -> HoldsVarints mem e p (w :: ws)

/-- The tags of a string value. -/
def StringTag (tag : Nat) : Prop :=
  tag = lsbPbValueString ∨ tag = lsbPbValueBytes

/-- Strings one behind the other with their keys, up to `e`. -/
inductive HoldsStrings (mem : Memory) (e : Nat) :
    Nat -> List ConstString -> Prop where
  | last {p tag n r} : lsbPbReadKey mem p = (p + 1, tag, lsbPbWtLength) ->
      StringTag tag -> HoldsLength mem (p + 1) n r -> r + n = e ->
      HoldsStrings mem e p [⟨some r, n⟩]
  | more {p tag n r ss} : lsbPbReadKey mem p = (p + 1, tag, lsbPbWtLength) ->
      StringTag tag -> HoldsLength mem (p + 1) n r -> r + n < e ->
      HoldsStrings mem e (r + n) ss ->
      HoldsStrings mem e p (⟨some r, n⟩ :: ss)

/-- The varints of one tag, a single one or packed. -/
inductive HoldsWords (mem : Memory) (e tag : Nat) :
    Nat -> List Nat -> Prop where
  | single {p w} : lsbPbReadKey mem p = (p + 1, tag, lsbPbWtVarint) ->
      HoldsVarint mem (p + 1) w e -> HoldsWords mem e tag p [w]
  | packed {p n r ws} : lsbPbReadKey mem p = (p + 1, tag, lsbPbWtLength) ->
      HoldsLength mem (p + 1) n r -> r + n = e ->
      HoldsVarints mem e r ws -> HoldsWords mem e tag p ws

/-- The patterns of `k` doubles. -/
def doublesAt (mem : Memory) (r k : Nat) : List Double :=
  (List.range k).map (fun i => Double.ofBytes (mem.bytes (r + 8 * i) 8))

theorem doublesAt_succ (mem : Memory) (r k : Nat) :
    doublesAt mem r (k + 1) =
      Double.ofBytes (mem.bytes r 8) :: doublesAt mem (r + 8) k := by
  unfold doublesAt
  rw [List.range_succ_eq_map, List.map_cons, List.map_map]
  apply congrArg (List.cons _)
  apply List.map_congr_left
  intro i _
  have haddr : r + 8 * (i + 1) = r + 8 + 8 * i := by omega
  change Double.ofBytes (mem.bytes (r + 8 * (i + 1)) 8) = _
  rw [haddr]

inductive HoldsDoubles (mem : Memory) (e : Nat) : Nat -> List Double -> Prop where
  | single {p} :
      lsbPbReadKey mem p = (p + 1, lsbPbValueDouble, lsbPbWtFixed64) ->
      p + 1 + 8 = e -> HoldsDoubles mem e p (doublesAt mem (p + 1) 1)
  | packed {p k r} :
      lsbPbReadKey mem p = (p + 1, lsbPbValueDouble, lsbPbWtLength) ->
      HoldsLength mem (p + 1) (8 * k) r -> r + 8 * k = e -> 0 < k ->
      HoldsDoubles mem e p (doublesAt mem r k)

/-- The values of a field; integers and booleans are words. -/
inductive WireValues where
  | strings (ss : List ConstString)
  | integers (ws : List Nat)
  | doubles (xs : List Double)
  | bools (ws : List Nat)
  deriving DecidableEq

/-- The values take the whole record from `p` on. -/
def HoldsValues (mem : Memory) (e p : Nat) : WireValues -> Prop
  | WireValues.strings ss => HoldsStrings mem e p ss
  | WireValues.integers ws => HoldsWords mem e lsbPbValueInteger p ws
  | WireValues.doubles xs => HoldsDoubles mem e p xs
  | WireValues.bools ws => HoldsWords mem e lsbPbValueBool p ws

/-- The slice in which the values are left to be read. -/
inductive SliceHolds (mem : Memory) : ConstString -> WireValues -> Prop where
  | strings {p e ss} : p <= e -> HoldsStrings mem e p ss ->
      SliceHolds mem ⟨some p, e - p⟩ (WireValues.strings ss)
  | integers {p e ws} : p <= e -> HoldsVarints mem e p ws ->
      SliceHolds mem ⟨some p, e - p⟩ (WireValues.integers ws)
  | doubles {p e k} : p + 8 * k = e ->
      SliceHolds mem ⟨some p, e - p⟩ (WireValues.doubles (doublesAt mem p k))
  | bools {p e ws} : p <= e -> HoldsVarints mem e p ws ->
      SliceHolds mem ⟨some p, e - p⟩ (WireValues.bools ws)

/-!
## The slice of a record
-/

section

variable {mem : Memory} {e p : Nat}

theorem HoldsVarints.lt {ws : List Nat} (h : HoldsVarints mem e p ws) :
    p < e := by
  cases h with
  | last hw => exact hw.lt
  | more hw hlt _ => exact Nat.lt_trans hw.lt hlt

theorem HoldsVarints.word_lt {w : Nat} {ws : List Nat}
    (h : HoldsVarints mem e p ws) (hw : w ∈ ws) : w < 2 ^ 64 := by
  induction h with
  | last hword =>
      cases List.mem_singleton.mp hw
      exact hword.word_lt
  | more hword _ _ ih =>
      rcases List.mem_cons.mp hw with rfl | hw
      · exact hword.word_lt
      · exact ih hw

theorem HoldsStrings.lt {ss : List ConstString}
    (h : HoldsStrings mem e p ss) : p < e := by
  cases h with
  | last _ _ hlen hend =>
      have := hlen.lt
      omega
  | more _ _ hlen hlt _ =>
      have := hlen.lt
      omega

theorem HoldsWords.lt {tag : Nat} {ws : List Nat}
    (h : HoldsWords mem e tag p ws) : p < e := by
  cases h with
  | single _ hw =>
      have := hw.lt
      omega
  | packed _ hlen hend _ =>
      have := hlen.lt
      omega

theorem HoldsDoubles.lt {xs : List Double} (h : HoldsDoubles mem e p xs) :
    p < e := by
  cases h with
  | single _ hend => omega
  | packed _ hlen hend _ =>
      have := hlen.lt
      omega

theorem HoldsValues.lt {vs : WireValues} (h : HoldsValues mem e p vs) :
    p < e := by
  cases vs with
  | strings ss => exact HoldsStrings.lt h
  | integers ws | bools ws => exact HoldsWords.lt h
  | doubles xs => exact HoldsDoubles.lt h

theorem HoldsStrings.key {ss : List ConstString}
    (h : HoldsStrings mem e p ss) :
    exists tag, StringTag tag ∧
      lsbPbReadKey mem p = (p + 1, tag, lsbPbWtLength) := by
  cases h with
  | last hkey htag _ _ => exact ⟨_, htag, hkey⟩
  | more hkey htag _ _ _ => exact ⟨_, htag, hkey⟩

theorem processFieldsEntry_strings {ss : List ConstString} (f : HekaField)
    (h : HoldsStrings mem e p ss) :
    processFieldsEntry mem e f p =
      (some e, { f with value := ⟨some p, e - p⟩ }) := by
  rcases h.key with ⟨tag, htag, hkey⟩
  unfold processFieldsEntry
  rw [hkey]
  rcases htag with rfl | rfl <;> rfl

/-- A packed value that takes the rest of the record. -/
theorem packedSlice {n r : Nat} (f : HekaField)
    (hlen : HoldsLength mem (p + 1) n r) (hend : r + n = e) :
    (match packedLength mem (p + 1) e with
      | none => (none, f)
      | some p => (some e, { f with value := ⟨some p, e - p⟩ })) =
      (some e, { f with value := ⟨some r, e - r⟩ }) := by
  rw [hlen.packedLength (Nat.le_of_eq hend)]

theorem processFieldsEntry_words {tag : Nat} {ws : List Nat}
    (f : HekaField) (htag : tag = lsbPbValueInteger ∨ tag = lsbPbValueBool)
    (h : HoldsWords mem e tag p ws) :
    exists q, q <= e ∧ HoldsVarints mem e q ws ∧
      processFieldsEntry mem e f p =
        (some e, { f with value := ⟨some q, e - q⟩ }) := by
  cases h with
  | single hkey hw =>
      refine ⟨p + 1, Nat.le_of_lt hw.lt, HoldsVarints.last hw, ?_⟩
      unfold processFieldsEntry
      rw [hkey]
      rcases htag with rfl | rfl <;> rfl
  | packed hkey hlen hend hws =>
      refine ⟨_, Nat.le_of_lt hws.lt, hws, ?_⟩
      have hentry := packedSlice f hlen hend
      unfold processFieldsEntry
      rw [hkey]
      rcases htag with rfl | rfl
      · exact hentry
      · exact hentry

theorem processFieldsEntry_doubles {xs : List Double} (f : HekaField)
    (h : HoldsDoubles mem e p xs) :
    exists q k, q + 8 * k = e ∧ xs = doublesAt mem q k ∧
      processFieldsEntry mem e f p =
        (some e, { f with value := ⟨some q, e - q⟩ }) := by
  cases h with
  | single hkey hend =>
      refine ⟨p + 1, 1, hend, rfl, ?_⟩
      unfold processFieldsEntry
      rw [hkey]
      rfl
  | packed hkey hlen hend _ =>
      refine ⟨_, _, hend, rfl, ?_⟩
      have hentry := packedSlice f hlen hend
      unfold processFieldsEntry
      rw [hkey]
      exact hentry

/-- Values that take the rest of the record are left in a slice. -/
theorem processFieldsEntry_values {vs : WireValues} (f : HekaField)
    (h : HoldsValues mem e p vs) :
    exists v, SliceHolds mem v vs ∧
      processFieldsEntry mem e f p = (some e, { f with value := v }) := by
  cases vs with
  | strings ss =>
      exact ⟨_, SliceHolds.strings (Nat.le_of_lt (HoldsStrings.lt h)) h,
        processFieldsEntry_strings f h⟩
  | integers ws =>
      rcases processFieldsEntry_words f (Or.inl rfl) h with
        ⟨q, hle, hws, hentry⟩
      exact ⟨_, SliceHolds.integers hle hws, hentry⟩
  | doubles xs =>
      rcases processFieldsEntry_doubles f h with ⟨q, k, hend, rfl, hentry⟩
      exact ⟨_, SliceHolds.doubles hend, hentry⟩
  | bools ws =>
      rcases processFieldsEntry_words f (Or.inr rfl) h with
        ⟨q, hle, hws, hentry⟩
      exact ⟨_, SliceHolds.bools hle hws, hentry⟩

/-!
## Reading the values
-/

theorem readIntegerValueLoop_end (n ai acnt : Nat) :
    readIntegerValueLoop mem e ai n e acnt = none := by
  unfold readIntegerValueLoop
  split
  · rfl
  · exact if_neg (Nat.lt_irrefl _)

theorem readStringValueLoop_end (n ai acnt : Nat) :
    readStringValueLoop mem e ai n e acnt = none := by
  unfold readStringValueLoop
  split
  · rfl
  · exact if_neg (Nat.lt_irrefl _)

/-- An element behind the first of those that are counted from `acnt` on. -/
theorem getElem?_after {alpha : Type} {ai acnt : Nat} (x : alpha)
    (xs : List alpha) (hle : acnt <= ai) (hne : ai ≠ acnt) :
    (x :: xs)[ai - acnt]? = xs[ai - (acnt + 1)]? := by
  have hbeyond : ai - acnt = ai - (acnt + 1) + 1 := by omega
  rw [hbeyond, List.getElem?_cons_succ]

/-- The loop over packed varints counts from `acnt` on. -/
theorem readIntegerValueLoop_eq {ws : List Nat} {ai : Nat}
    (h : HoldsVarints mem e p ws) : forall {n acnt : Nat},
      e - p <= n -> acnt <= ai ->
      readIntegerValueLoop mem e ai n p acnt = ws[ai - acnt]?.map
        (fun w => ReadValue.numeric (Double.ofInt (toLongLong w))) := by
  induction h with
  | last hw =>
      intro n acnt hn hle
      have hlt := hw.lt
      obtain ⟨n, rfl⟩ : exists m, n = m + 1 := ⟨n - 1, by omega⟩
      unfold readIntegerValueLoop
      rw [if_pos hlt, hw.read (Nat.le_refl e)]
      dsimp only
      split
      · rename_i heq
        rw [heq, Nat.sub_self]
        rfl
      · rename_i hne
        rw [readIntegerValueLoop_end, getElem?_after _ _ hle hne]
        rfl
  | more hw hlt _ ih =>
      intro n acnt hn hle
      have hlt' := hw.lt
      obtain ⟨n, rfl⟩ : exists m, n = m + 1 := ⟨n - 1, by omega⟩
      unfold readIntegerValueLoop
      rw [if_pos (by omega), hw.read (Nat.le_of_lt hlt)]
      dsimp only
      split
      · rename_i heq
        rw [heq, Nat.sub_self]
        rfl
      · rename_i hne
        rw [getElem?_after _ _ hle hne]
        exact ih (by omega) (by omega)

theorem readStringValueLoop_eq {ss : List ConstString} {ai : Nat}
    (h : HoldsStrings mem e p ss) : forall {n acnt : Nat},
      e - p <= n -> acnt <= ai ->
      readStringValueLoop mem e ai n p acnt =
        ss[ai - acnt]?.map ReadValue.string := by
  induction h with
  | last hkey htag hlen hend =>
      intro n acnt hn hle
      have hlt := hlen.lt
      obtain ⟨n, rfl⟩ : exists m, n = m + 1 := ⟨n - 1, by omega⟩
      unfold readStringValueLoop
      rw [if_pos (by omega), hkey]
      dsimp only
      rw [hlen.readString (Nat.le_of_eq hend), hend]
      dsimp only
      split
      · rename_i heq
        rw [heq, Nat.sub_self]
        rfl
      · rename_i hne
        rw [readStringValueLoop_end, getElem?_after _ _ hle hne]
        rfl
  | more hkey htag hlen hlt _ ih =>
      intro n acnt hn hle
      have hlt' := hlen.lt
      obtain ⟨n, rfl⟩ : exists m, n = m + 1 := ⟨n - 1, by omega⟩
      unfold readStringValueLoop
      rw [if_pos (by omega), hkey]
      dsimp only
      rw [hlen.readString (Nat.le_of_lt hlt)]
      dsimp only
      split
      · rename_i heq
        rw [heq, Nat.sub_self]
        rfl
      · rename_i hne
        rw [getElem?_after _ _ hle hne]
        exact ih (by omega) (by omega)

/-- An array index is an `int`, and so is the one behind it. -/
theorem readDoubleValue_eq {k ai : Nat} (hend : p + 8 * k = e)
    (hai : (ai : Int) < intMax) :
    readDoubleValue mem p e ai =
      (doublesAt mem p k)[ai]?.map ReadValue.numeric := by
  have hint : toInt ((ai : Int) + 1) = ai + 1 := by
    apply toInt_of_range
    · unfold intMin
      omega
    · omega
  unfold readDoubleValue
  rw [hint]
  by_cases hlt : ai < k
  · rw [if_neg (by omega)]
    unfold doublesAt
    rw [List.getElem?_map, List.getElem?_range hlt]
    rfl
  · rw [if_pos (by omega)]
    unfold doublesAt
    rw [List.getElem?_map, List.getElem?_eq_none (by rw [List.length_range]; omega)]
    rfl

end

namespace WireValues

/-- The value at an array index. -/
def read (ai : Nat) : WireValues -> Option ReadValue
  | strings ss => ss[ai]?.map ReadValue.string
  | integers ws => ws[ai]?.map
      (fun w => ReadValue.numeric (Double.ofInt (toLongLong w)))
  | doubles xs => xs[ai]?.map ReadValue.numeric
  | bools ws => ws[ai]?.map
      (fun w => ReadValue.bool (Double.ofInt (toLongLong w)))

/-- The values have the type that the field names. -/
def Typed (valueType : Int) : WireValues -> Prop
  | strings _ => valueType = lsbPbString ∨ valueType = lsbPbBytes
  | integers _ => valueType = lsbPbInteger
  | doubles _ => valueType = lsbPbDouble
  | bools _ => valueType = lsbPbBool

end WireValues

/-- The values of the type are read from the slice one by one. -/
theorem readFieldValue_eq {mem : Memory} {f : HekaField} {vs : WireValues}
    {ai : Nat} (hslice : SliceHolds mem f.value vs)
    (htyped : vs.Typed f.valueType) (hai : (ai : Int) < intMax) :
    readFieldValue mem f ai = vs.read ai := by
  unfold readFieldValue
  generalize f.value = v at hslice
  generalize f.valueType = t at htyped
  cases hslice with
  | strings hle hss =>
      change t = lsbPbString ∨ t = lsbPbBytes at htyped
      dsimp only
      rw [if_pos htyped, Nat.add_sub_cancel' hle]
      exact readStringValueLoop_eq hss (Nat.le_refl _) (Nat.zero_le ai)
  | integers hle hws =>
      subst htyped
      dsimp only
      rw [if_neg (by decide), if_pos rfl, Nat.add_sub_cancel' hle]
      exact readIntegerValueLoop_eq hws (Nat.le_refl _) (Nat.zero_le ai)
  | doubles hend =>
      subst htyped
      dsimp only
      rw [if_neg (by decide), if_neg (by decide), if_neg (by decide),
        if_pos rfl, Nat.add_sub_cancel' (by omega)]
      exact readDoubleValue_eq hend hai
  | bools hle hws =>
      rename_i p e ws
      subst htyped
      have hwords : readIntegerValueLoop mem e ai (e - p) p 0 = _ :=
        readIntegerValueLoop_eq hws (Nat.le_refl _) (Nat.zero_le ai)
      dsimp only
      rw [if_neg (by decide), if_neg (by decide), if_pos rfl,
        Nat.add_sub_cancel' hle]
      unfold readIntegerValue
      rw [hwords, Nat.sub_zero]
      change _ = ws[ai]?.map
        (fun w => ReadValue.bool (Double.ofInt (toLongLong w)))
      generalize ws[ai]? = w
      cases w <;> rfl

end Util
end LuaSandbox
