import LuaSandbox.Util.DecodeBounds
import LuaSandbox.Util.WireValues
import Mathlib.Data.List.Nodup

/-!
# Field and array indexes

A value of a message is chosen by a name, a field index and an array index.
The names are compared up to a NUL, and the array index of a double is
incremented as an `int`.
-/

namespace LuaSandbox
namespace Util

open Foundation

/-!
## The elements of a field
-/

section

variable (mem : Memory)

/-- The strings of a region up to the first that cannot be read. -/
def stringElements (e : Nat) : Nat -> Nat -> List ConstString
  | 0, _ => []
  | n + 1, p =>
      if p < e then
        let (q, _, wiretype) := lsbPbReadKey mem p
        match readString mem wiretype q e with
        | none => []
        | some (r, s) => s :: stringElements e n r
      else
        []

/-- The varints of a region up to the first that cannot be read. -/
def varintElements (e : Nat) : Nat -> Nat -> List Nat
  | 0, _ => []
  | n + 1, p =>
      if p < e then
        match lsbPbReadVarint mem p e with
        | none => []
        | some (q, w) => w :: varintElements e n q
      else
        []

/-- The elements of the region at `p` of `n` bytes, for a type of values. -/
def regionElements (valueType : Int) (p n : Nat) : List ReadValue :=
  if valueType = lsbPbString ∨ valueType = lsbPbBytes then
    (stringElements mem (p + n) n p).map ReadValue.string
  else if valueType = lsbPbInteger then
    (varintElements mem (p + n) n p).map
      (fun w => ReadValue.numeric (Double.ofInt (toLongLong w)))
  else if valueType = lsbPbBool then
    (varintElements mem (p + n) n p).map
      (fun w => ReadValue.bool (Double.ofInt (toLongLong w)))
  else if valueType = lsbPbDouble then
    (doublesAt mem p (n / 8)).map ReadValue.numeric
  else
    []

/-- The elements of a field; a field may have no value. -/
def HekaField.elements (f : HekaField) : List ReadValue :=
  match f.value.s with
  | none => []
  | some p => regionElements mem f.valueType p f.value.len

end

section

variable {mem : Memory} {e : Nat}

theorem readStringValueLoop_elements {ai : Nat} (n : Nat) :
    forall {p acnt : Nat}, acnt <= ai ->
      readStringValueLoop mem e ai n p acnt =
        (stringElements mem e n p)[ai - acnt]?.map ReadValue.string := by
  induction n with
  | zero =>
      intro p acnt _
      rfl
  | succ n ih =>
      intro p acnt hle
      unfold readStringValueLoop stringElements
      split
      · dsimp only
        cases readString mem (lsbPbReadKey mem p).2.2 (lsbPbReadKey mem p).1 e with
        | none => rfl
        | some r =>
            dsimp only
            split
            · rename_i heq
              rw [heq, Nat.sub_self]
              rfl
            · rename_i hne
              rw [ih (by omega), getElem?_after _ _ hle hne]
      · rfl

theorem readIntegerValueLoop_elements {ai : Nat} (n : Nat) :
    forall {p acnt : Nat}, acnt <= ai ->
      readIntegerValueLoop mem e ai n p acnt =
        (varintElements mem e n p)[ai - acnt]?.map
          (fun w => ReadValue.numeric (Double.ofInt (toLongLong w))) := by
  induction n with
  | zero =>
      intro p acnt _
      rfl
  | succ n ih =>
      intro p acnt hle
      unfold readIntegerValueLoop varintElements
      split
      · cases lsbPbReadVarint mem p e with
        | none => rfl
        | some r =>
            dsimp only
            split
            · rename_i heq
              rw [heq, Nat.sub_self]
              rfl
            · rename_i hne
              rw [ih (by omega), getElem?_after _ _ hle hne]
      · rfl

/-- The number behind the index is an `int`. -/
theorem readDoubleValue_elements {p n ai : Nat} (hai : (ai : Int) < intMax) :
    readDoubleValue mem p (p + n) ai =
      (doublesAt mem p (n / 8))[ai]?.map ReadValue.numeric := by
  have hint : toInt ((ai : Int) + 1) = ai + 1 := by
    apply toInt_of_range
    · unfold intMin
      omega
    · omega
  unfold readDoubleValue doublesAt
  rw [hint, List.getElem?_map]
  by_cases hlt : ai < n / 8
  · rw [if_neg (by omega), List.getElem?_range hlt]
    rfl
  · rw [if_pos (by omega), List.getElem?_eq_none (by
      rw [List.length_range]
      omega)]
    rfl

/-- The index of a double is incremented to an `int`. -/
def IndexFits (f : HekaField) (ai : Nat) : Prop :=
  f.valueType = lsbPbDouble -> toInt ((ai : Int) + 1) = ai + 1

theorem indexFits_iff {f : HekaField} {ai : Nat} (hai : (ai : Int) <= intMax) :
    IndexFits f ai <-> (f.valueType = lsbPbDouble -> (ai : Int) ≠ intMax) := by
  have hint : toInt ((ai : Int) + 1) = ai + 1 <-> (ai : Int) ≠ intMax := by
    unfold intMax at *
    constructor
    · rintro h heq
      rw [heq] at h
      exact absurd h (by decide)
    · intro hne
      apply toInt_of_range
      · unfold intMin
        omega
      · unfold intMax
        omega
  unfold IndexFits
  rw [hint]

/-- The value of a field is its element at the index. -/
theorem readFieldValue_elements {f : HekaField} {ai : Nat}
    (hai : (ai : Int) <= intMax) (hfits : IndexFits f ai) :
    readFieldValue mem f ai = (f.elements mem)[ai]? := by
  unfold readFieldValue HekaField.elements
  cases f.value.s with
  | none => rfl
  | some p =>
      dsimp only
      unfold regionElements readStringValue readIntegerValue
      rw [Nat.add_sub_cancel_left]
      split
      · rw [readStringValueLoop_elements _ (Nat.zero_le ai), List.getElem?_map]
        rfl
      split
      · rw [readIntegerValueLoop_elements _ (Nat.zero_le ai),
          List.getElem?_map]
        rfl
      split
      · rw [readIntegerValueLoop_elements _ (Nat.zero_le ai),
          List.getElem?_map, Nat.sub_zero]
        generalize (varintElements mem (p + f.value.len) f.value.len p)[ai]? = w
        cases w <;> rfl
      split
      · rename_i hdouble
        have hne := (indexFits_iff hai).mp hfits hdouble
        rw [readDoubleValue_elements (by omega), List.getElem?_map]
      · rfl

theorem stringElements_of_holds {p : Nat} {ss : List ConstString}
    (h : HoldsStrings mem e p ss) :
    forall {n : Nat}, e - p <= n -> stringElements mem e n p = ss := by
  induction h with
  | last hkey htag hlen hend =>
      intro n hn
      have hlt := hlen.lt
      obtain ⟨n, rfl⟩ : exists m, n = m + 1 := ⟨n - 1, by omega⟩
      unfold stringElements
      rw [if_pos (by omega), hkey]
      dsimp only
      rw [hlen.readString (Nat.le_of_eq hend), hend]
      cases n with
      | zero => rfl
      | succ n =>
          unfold stringElements
          dsimp only
          rw [if_neg (Nat.lt_irrefl _)]
  | more hkey htag hlen hlt _ ih =>
      intro n hn
      have hlt' := hlen.lt
      obtain ⟨n, rfl⟩ : exists m, n = m + 1 := ⟨n - 1, by omega⟩
      unfold stringElements
      rw [if_pos (by omega), hkey]
      dsimp only
      rw [hlen.readString (Nat.le_of_lt hlt)]
      exact congrArg (List.cons _) (ih (by omega))

theorem varintElements_of_holds {p : Nat} {ws : List Nat}
    (h : HoldsVarints mem e p ws) :
    forall {n : Nat}, e - p <= n -> varintElements mem e n p = ws := by
  induction h with
  | last hw =>
      intro n hn
      have hlt := hw.lt
      obtain ⟨n, rfl⟩ : exists m, n = m + 1 := ⟨n - 1, by omega⟩
      unfold varintElements
      rw [if_pos hlt, hw.read (Nat.le_refl e)]
      cases n with
      | zero => rfl
      | succ n =>
          unfold varintElements
          dsimp only
          rw [if_neg (Nat.lt_irrefl _)]
  | more hw hlt _ ih =>
      intro n hn
      have hlt' := hw.lt
      obtain ⟨n, rfl⟩ : exists m, n = m + 1 := ⟨n - 1, by omega⟩
      unfold varintElements
      rw [if_pos (by omega), hw.read (Nat.le_of_lt hlt)]
      exact congrArg (List.cons _) (ih (by omega))

/-- What is read of the values one by one. -/
def WireValues.elements : WireValues -> List ReadValue
  | WireValues.strings ss => ss.map ReadValue.string
  | WireValues.integers ws => ws.map
      (fun w => ReadValue.numeric (Double.ofInt (toLongLong w)))
  | WireValues.doubles xs => xs.map ReadValue.numeric
  | WireValues.bools ws => ws.map
      (fun w => ReadValue.bool (Double.ofInt (toLongLong w)))

/-- The elements of a field that was written as values of its type are these
values. -/
theorem elements_of_slice {f : HekaField} {vs : WireValues}
    (hslice : SliceHolds mem f.value vs) (htyped : vs.Typed f.valueType) :
    f.elements mem = vs.elements := by
  unfold HekaField.elements
  generalize f.value = v at hslice
  generalize f.valueType = t at htyped
  cases hslice with
  | strings hle hss =>
      change t = lsbPbString ∨ t = lsbPbBytes at htyped
      dsimp only
      unfold regionElements
      rw [if_pos htyped, Nat.add_sub_cancel' hle,
        stringElements_of_holds hss (Nat.le_refl _)]
      rfl
  | integers hle hws =>
      subst htyped
      dsimp only
      unfold regionElements
      rw [if_neg (by decide), if_pos rfl, Nat.add_sub_cancel' hle,
        varintElements_of_holds hws (Nat.le_refl _)]
      rfl
  | doubles hend =>
      rename_i p e k
      subst htyped
      have hcount : (e - p) / 8 = k := by omega
      dsimp only
      unfold regionElements
      rw [if_neg (by decide), if_neg (by decide), if_neg (by decide),
        if_pos rfl, hcount]
      rfl
  | bools hle hws =>
      subst htyped
      dsimp only
      unfold regionElements
      rw [if_neg (by decide), if_neg (by decide), if_pos rfl,
        Nat.add_sub_cancel' hle, varintElements_of_holds hws (Nat.le_refl _)]
      rfl

end

/-!
## The bytes that are read
-/

def readStringValueReads (mem : Memory) (e ai : Nat) :
    Nat -> Nat -> Nat -> List Nat
  | 0, _, _ => []
  | n + 1, p, acnt =>
      if p < e then
        let (q, _, wiretype) := lsbPbReadKey mem p
        p :: readStringReads mem wiretype q e ++
          match readString mem wiretype q e with
          | none => []
          | some (r, _) =>
              if ai = acnt then []
              else readStringValueReads mem e ai n r (acnt + 1)
      else
        []

def readIntegerValueReads (mem : Memory) (e ai : Nat) :
    Nat -> Nat -> Nat -> List Nat
  | 0, _, _ => []
  | n + 1, p, acnt =>
      if p < e then
        readVarintReads mem p e ++
          match lsbPbReadVarint mem p e with
          | none => []
          | some (q, _) =>
              if ai = acnt then []
              else readIntegerValueReads mem e ai n q (acnt + 1)
      else
        []

def readDoubleValueReads (p e ai : Nat) : List Nat :=
  if (p : Int) + 8 * toInt (ai + 1) > e then []
  else (List.range 8).map (fun i => p + 8 * ai + i)

/-- The addresses of the bytes that are read for the value of a field. -/
def readFieldValueReads (mem : Memory) (f : HekaField) (ai : Nat) :
    List Nat :=
  match f.value.s with
  | none => []
  | some p =>
      let e := p + f.value.len
      if f.valueType = lsbPbString ∨ f.valueType = lsbPbBytes then
        readStringValueReads mem e ai (e - p) p 0
      else if f.valueType = lsbPbInteger ∨ f.valueType = lsbPbBool then
        readIntegerValueReads mem e ai (e - p) p 0
      else if f.valueType = lsbPbDouble then
        readDoubleValueReads p e ai
      else
        []

section

variable {mem : Memory} {e ai a : Nat}

theorem readStringValueReads_bounds (n : Nat) :
    forall {p acnt : Nat}, a ∈ readStringValueReads mem e ai n p acnt ->
      p <= a ∧ a < e := by
  induction n with
  | zero =>
      intro p acnt ha
      cases ha
  | succ n ih =>
      intro p acnt ha
      unfold readStringValueReads at ha
      split at ha
      · rename_i hlt
        dsimp only at ha
        rcases List.mem_append.mp ha with ha | ha
        · rcases List.mem_cons.mp ha with rfl | ha
          · exact ⟨Nat.le_refl _, hlt⟩
          · have hbounds := readStringReads_bounds (p := p + 1) hlt ha
            omega
        · split at ha
          · cases ha
          · rename_i hstring
            have hnext := readString_position hstring
            have hkey : (lsbPbReadKey mem p).1 = p + 1 := rfl
            split at ha
            · cases ha
            · have hbounds := ih ha
              omega
      · cases ha

theorem readIntegerValueReads_bounds (n : Nat) :
    forall {p acnt : Nat}, a ∈ readIntegerValueReads mem e ai n p acnt ->
      p <= a ∧ a < e := by
  induction n with
  | zero =>
      intro p acnt ha
      cases ha
  | succ n ih =>
      intro p acnt ha
      unfold readIntegerValueReads at ha
      split at ha
      · rename_i hlt
        rcases List.mem_append.mp ha with ha | ha
        · exact readVarintReads_bounds (Nat.le_of_lt hlt) ha
        · split at ha
          · cases ha
          · rename_i hvarint
            have hnext := readVarintLoop_lt hvarint
            split at ha
            · cases ha
            · have hbounds := ih ha
              omega
      · cases ha

/-- Nothing outside of the region of the field is read. -/
theorem readFieldValueReads_bounds {f : HekaField} (hfits : IndexFits f ai)
    (ha : a ∈ readFieldValueReads mem f ai) :
    exists p, f.value.s = some p ∧ p <= a ∧ a < p + f.value.len := by
  unfold readFieldValueReads at ha
  cases hvalue : f.value.s with
  | none =>
      rw [hvalue] at ha
      cases ha
  | some p =>
      rw [hvalue] at ha
      refine ⟨p, rfl, ?_⟩
      dsimp only at ha
      split at ha
      · exact readStringValueReads_bounds _ ha
      split at ha
      · exact readIntegerValueReads_bounds _ ha
      split at ha
      · rename_i hdouble
        unfold readDoubleValueReads at ha
        rw [hfits hdouble] at ha
        split at ha
        · cases ha
        · rcases List.mem_map.mp ha with ⟨i, hi, rfl⟩
          have hi' := List.mem_range.mp hi
          omega
      · cases ha

/-- Bytes that are not read do not matter. -/
theorem readStringValueLoop_congr {mem' : Memory} (n : Nat) :
    forall {p acnt : Nat},
      (forall a, a ∈ readStringValueReads mem e ai n p acnt ->
        mem' a = mem a) ->
      readStringValueLoop mem' e ai n p acnt =
        readStringValueLoop mem e ai n p acnt := by
  induction n with
  | zero =>
      intro p acnt _
      rfl
  | succ n ih =>
      intro p acnt h
      unfold readStringValueLoop
      unfold readStringValueReads at h
      split
      · rename_i hlt
        rw [if_pos hlt] at h
        dsimp only at h ⊢
        rw [lsbPbReadKey_congr (h p List.mem_cons_self)]
        rw [readString_congr (fun a ha => h a (List.mem_append_left _
          (List.mem_cons_of_mem p ha)))]
        split
        · rfl
        · rename_i hstring
          rw [hstring] at h
          split
          · rfl
          · rename_i hne
            refine ih (fun a ha => h a (List.mem_append_right _ ?_))
            dsimp only
            rw [if_neg hne]
            exact ha
      · rfl

theorem readIntegerValueLoop_congr {mem' : Memory} (n : Nat) :
    forall {p acnt : Nat},
      (forall a, a ∈ readIntegerValueReads mem e ai n p acnt ->
        mem' a = mem a) ->
      readIntegerValueLoop mem' e ai n p acnt =
        readIntegerValueLoop mem e ai n p acnt := by
  induction n with
  | zero =>
      intro p acnt _
      rfl
  | succ n ih =>
      intro p acnt h
      unfold readIntegerValueLoop
      unfold readIntegerValueReads at h
      split
      · rename_i hlt
        rw [if_pos hlt] at h
        rw [lsbPbReadVarint_congr (fun a ha => h a (List.mem_append_left _ ha))]
        split
        · rfl
        · rename_i hvarint
          rw [hvarint] at h
          split
          · rfl
          · rename_i hne
            refine ih (fun a ha => h a (List.mem_append_right _ ?_))
            dsimp only
            rw [if_neg hne]
            exact ha
      · rfl

end

/-!
## The field of a name
-/

section

variable {alpha : Type} {p : alpha -> Bool}

/-- Of distinct elements the one at an index stays there if and only if none
before it is taken out. -/
theorem filter_getElem?_eq_iff {ys : List alpha} (hys : ys.Nodup) (k : Nat) :
    ys[k]? = (ys.filter p)[k]? <->
      ys.length <= k ∨ forall y, y ∈ ys.take (k + 1) -> p y = true := by
  have hsplit : ys.filter p =
      (ys.take (k + 1)).filter p ++ (ys.drop (k + 1)).filter p := by
    rw [← List.filter_append, List.take_append_drop]
  constructor
  · intro heq
    rcases Nat.lt_or_ge k ys.length with hlt | hge
    · right
      by_contra hsome
      have hshort : ((ys.take (k + 1)).filter p).length <= k := by
        have hle := List.length_filter_le p (ys.take (k + 1))
        rw [List.length_take] at hle
        rcases Nat.lt_or_ge ((ys.take (k + 1)).filter p).length (k + 1) with
          hless | hmore
        · omega
        · exfalso
          apply hsome
          apply List.length_filter_eq_length_iff.mp
          rw [List.length_take]
          omega
      rw [hsplit, List.getElem?_append_right hshort,
        List.getElem?_eq_getElem hlt] at heq
      have hlater := List.mem_of_mem_filter (List.mem_of_getElem? heq.symm)
      rcases List.mem_drop_iff_getElem.mp hlater with ⟨j, hj, hsame⟩
      have hindex := (List.getElem_inj hys).mp hsame
      omega
    · exact Or.inl hge
  · rintro (hge | hall)
    · have hle := List.length_filter_le p ys
      rw [List.getElem?_eq_none hge, List.getElem?_eq_none (by omega)]
    · rw [hsplit, List.filter_eq_self.mpr hall]
      rcases Nat.lt_or_ge k ys.length with hlt | hge
      · rw [List.getElem?_append_left (by rw [List.length_take]; omega),
          List.getElem?_take_of_lt (Nat.lt_succ_self k)]
      · have hnone : ys.drop (k + 1) = [] := List.drop_eq_nil_of_le (by omega)
        rw [hnone, List.filter_nil, List.append_nil,
          List.getElem?_take_of_lt (Nat.lt_succ_self k)]

end

section

variable (mem : Memory) (name : List UInt8)

/-- The field is called `name`, byte for byte. -/
def isNamed (f : HekaField) : Bool :=
  decide (f.name.len = name.length ∧ f.name.bytes mem = name)

/-- The fields, with their positions, that the code takes for those of the
name. -/
def matchingFields (m : HekaMessage) : List (HekaField × Nat) :=
  m.fields.zipIdx.filter (fun x => nameMatches mem name x.1)

/-- The fields of the name, with their positions. -/
def namedFields (m : HekaMessage) : List (HekaField × Nat) :=
  m.fields.zipIdx.filter (fun x => isNamed mem name x.1)

end

section

variable {mem : Memory} {name : List UInt8}

theorem strncmp_self (xs : List UInt8) :
    forall n, strncmp xs xs n = 0 := by
  induction xs with
  | nil =>
      intro n
      cases n <;> rfl
  | cons x xs ih =>
      intro n
      cases n with
      | zero => rfl
      | succ n =>
          unfold strncmp
          rw [if_neg (fun h => h rfl), ih n]
          split <;> rfl

theorem nameMatches_of_isNamed {f : HekaField}
    (h : isNamed mem name f = true) : nameMatches mem name f = true := by
  rcases of_decide_eq_true h with ⟨hlen, hbytes⟩
  unfold nameMatches
  rw [hlen, hbytes, strncmp_self, decide_eq_true rfl, Bool.true_and]
  exact decide_eq_true rfl

/-- Without a NUL in it, the name is compared byte for byte. -/
theorem strncmp_eq_zero {xs : List UInt8} (hnul : 0 ∉ xs) :
    forall {ys : List UInt8}, ys.length = xs.length ->
      strncmp xs ys xs.length = 0 -> ys = xs := by
  induction xs with
  | nil =>
      intro ys hlen _
      exact List.length_eq_zero_iff.mp hlen
  | cons x xs ih =>
      intro ys hlen h
      cases ys with
      | nil => cases hlen
      | cons y ys =>
          rw [List.length_cons, strncmp] at h
          split at h
          · rename_i hne
            exact absurd (UInt8.toNat_inj.mp (by omega)) hne
          · rename_i heq
            have hx : x ≠ 0 := by
              rintro rfl
              exact hnul List.mem_cons_self
            rw [if_neg hx] at h
            rw [not_not.mp heq, ih (fun hmem =>
              hnul (List.mem_cons_of_mem x hmem)) (Nat.succ.inj hlen) h]

theorem namedFields_eq (m : HekaMessage) :
    namedFields mem name m =
      (matchingFields mem name m).filter (fun x => isNamed mem name x.1) := by
  unfold namedFields matchingFields
  rw [List.filter_filter]
  refine List.filter_congr (fun x _ => ?_)
  cases hnamed : isNamed mem name x.1 with
  | true => rw [nameMatches_of_isNamed hnamed, Bool.and_self]
  | false => rw [Bool.false_and]

theorem matchingFields_nodup (m : HekaMessage) :
    (matchingFields mem name m).Nodup := by
  refine List.Nodup.filter _ (List.Nodup.of_map Prod.snd ?_)
  rw [List.zipIdx_map_snd]
  exact List.nodup_range'

/-- The code reads the matching field at the field index. -/
theorem readHekaFieldLoop_eq {fi ai : Nat} (fields : List HekaField) :
    forall {j fcnt : Nat}, fcnt <= fi ->
      readHekaFieldLoop mem name fi ai fcnt fields =
        ((fields.zipIdx j).filter
          (fun x => nameMatches mem name x.1))[fi - fcnt]?.bind
            (fun x => readFieldValue mem x.1 ai) := by
  induction fields with
  | nil =>
      intro j fcnt _
      rfl
  | cons f fields ih =>
      intro j fcnt hle
      unfold readHekaFieldLoop
      rw [List.zipIdx_cons, List.filter_cons]
      dsimp only
      split
      · split
        · rename_i heq
          rw [heq, Nat.sub_self]
          rfl
        · rename_i hne
          rw [ih (j := j + 1) (by omega), getElem?_after _ _ hle hne]
      · exact ih hle

theorem lsbReadHekaField_eq (m : HekaMessage) (fi ai : Nat) :
    lsbReadHekaField mem m name fi ai =
      (matchingFields mem name m)[fi]?.bind
        (fun x => readFieldValue mem x.1 ai) :=
  readHekaFieldLoop_eq m.fields (Nat.zero_le fi)

/-- The field is selected by its name and the element by its index, and only
the region of the field is read. -/
structure IndexedInRange (mem : Memory) (name : List UInt8) (m : HekaMessage)
    (fi ai : Nat) : Prop where
  selects : (matchingFields mem name m)[fi]? = (namedFields mem name m)[fi]?
  position : forall x, (matchingFields mem name m)[fi]? = some x ->
    IndexFits x.1 ai
  reads : forall x, (matchingFields mem name m)[fi]? = some x ->
    forall a, a ∈ readFieldValueReads mem x.1 ai ->
      exists p, x.1.value.s = some p ∧ p <= a ∧ a < p + x.1.value.len
  value : lsbReadHekaField mem m name fi ai =
    (namedFields mem name m)[fi]?.bind (fun x => (x.1.elements mem)[ai]?)

/-- The fields that are counted are called by the name, or there are too few
of them. -/
def NamesExact (mem : Memory) (name : List UInt8) (m : HekaMessage)
    (fi : Nat) : Prop :=
  (matchingFields mem name m).length <= fi ∨
    forall x, x ∈ (matchingFields mem name m).take (fi + 1) ->
      isNamed mem name x.1 = true

/-- The element behind the largest `int` is not asked for in a double field. -/
def ElementCounted (mem : Memory) (name : List UInt8) (m : HekaMessage)
    (fi ai : Nat) : Prop :=
  forall x, (matchingFields mem name m)[fi]? = some x ->
    x.1.valueType = lsbPbDouble -> (ai : Int) ≠ intMax

/-- The indexes are in range if and only if no name is confused with another
behind a NUL and the array index of a double can be incremented. -/
theorem indexedInRange_iff (m : HekaMessage) (fi : Nat) {ai : Nat}
    (hai : (ai : Int) <= intMax) :
    IndexedInRange mem name m fi ai <->
      NamesExact mem name m fi ∧ ElementCounted mem name m fi ai := by
  have hselects : (matchingFields mem name m)[fi]? =
      (namedFields mem name m)[fi]? <-> NamesExact mem name m fi := by
    rw [namedFields_eq]
    exact filter_getElem?_eq_iff (matchingFields_nodup m) fi
  constructor
  · rintro ⟨hsame, hposition, -, -⟩
    exact ⟨hselects.mp hsame,
      fun x hx => (indexFits_iff hai).mp (hposition x hx)⟩
  · rintro ⟨hexact, hcounted⟩
    have hsame := hselects.mpr hexact
    have hposition : forall x, (matchingFields mem name m)[fi]? = some x ->
        IndexFits x.1 ai :=
      fun x hx => (indexFits_iff hai).mpr (hcounted x hx)
    refine ⟨hsame, hposition,
      fun x hx a ha => readFieldValueReads_bounds (hposition x hx) ha, ?_⟩
    rw [lsbReadHekaField_eq, ← hsame]
    cases hx : (matchingFields mem name m)[fi]? with
    | none => rfl
    | some x => exact readFieldValue_elements hai (hposition x hx)

/-- Names without a NUL are not confused. -/
theorem namesExact_of_no_nul {m : HekaMessage} (fi : Nat)
    (hslices : forall f, f ∈ m.fields ->
      (f.name.bytes mem).length = f.name.len)
    (hnul : 0 ∉ name) : NamesExact mem name m fi := by
  refine Or.inr (fun x hx => ?_)
  rcases List.mem_filter.mp (List.mem_of_mem_take hx) with ⟨hfield, hmatches⟩
  have hlength := hslices x.1 (List.fst_mem_of_mem_zipIdx hfield)
  unfold nameMatches at hmatches
  rw [Bool.and_eq_true, decide_eq_true_eq, decide_eq_true_eq] at hmatches
  refine decide_eq_true ⟨hmatches.1.symm, ?_⟩
  refine strncmp_eq_zero hnul (hlength.trans hmatches.1.symm) ?_
  rw [hmatches.1]
  exact hmatches.2

/-- The bytes of a message with the double field `a` of one element. -/
def doubleFieldBytes : List UInt8 :=
  [0x0a, 0x10, 0, 0, 0, 0, 0, 0, 0, 0, 0, 0, 0, 0, 0, 0, 0, 0, 0x10, 1,
    0x52, 14, 0x0a, 1, 0x61, 0x10, 3, 0x39, 0, 0, 0, 0, 0, 0, 0xf0, 0x3f]

def doubleFieldMessage : HekaMessage :=
  (lsbDecodeHekaMessage (Memory.ofList doubleFieldBytes) 0 36).2

theorem indexedInRange_first :
    (lsbDecodeHekaMessage (Memory.ofList doubleFieldBytes) 0 36).1 = true ∧
      IndexedInRange (Memory.ofList doubleFieldBytes) [0x61]
        doubleFieldMessage 0 0 :=
  ⟨by decide,
    (indexedInRange_iff doubleFieldMessage 0 (by decide)).mpr
      ⟨Or.inr (by decide), fun _ _ _ => by decide⟩⟩

/-- At the largest index bytes far outside of the message are taken for an
element that does not exist. -/
theorem indexedInRange_largest :
    (lsbDecodeHekaMessage (Memory.ofList doubleFieldBytes) 0 36).1 = true ∧
      lsbReadHekaField (Memory.ofList doubleFieldBytes) doubleFieldMessage
        [0x61] 0 2147483647 = some (ReadValue.numeric ⟨0⟩) ∧
      ¬ IndexedInRange (Memory.ofList doubleFieldBytes) [0x61]
        doubleFieldMessage 0 2147483647 := by
  refine ⟨by decide, by decide +kernel, ?_⟩
  rintro ⟨-, -, -, hvalue⟩
  have hread : lsbReadHekaField (Memory.ofList doubleFieldBytes)
      doubleFieldMessage [0x61] 0 2147483647 ≠
        (namedFields (Memory.ofList doubleFieldBytes) [0x61]
          doubleFieldMessage)[0]?.bind (fun x =>
            (x.1.elements (Memory.ofList doubleFieldBytes))[2147483647]?) := by
    decide
  exact hread hvalue

end

end Util
end LuaSandbox
