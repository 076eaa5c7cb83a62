import LuaSandbox.Util.HekaMessage
import Mathlib.Data.List.Forall2

/-!
# Relocation of messages

A message consists of slices of the buffer it was decoded from.  When the same
bytes stand at two places, decoding them has the same result at both, with
slices that start at the same distances from the two places.
-/

namespace LuaSandbox
namespace Util

open Foundation

/-!
## Related results
-/

/-- The same `n` bytes stand at two places. -/
def SameBytes (mem : Memory) (b : Nat) (mem' : Memory) (b' n : Nat) : Prop :=
  forall i, i < n -> mem (b + i) = mem' (b' + i)

theorem sameBytes_self (mem : Memory) (b n : Nat) :
    SameBytes mem b mem b n :=
  fun _ _ => rfl

theorem sameBytes_of_bytes_eq {mem mem' : Memory} {b b' n : Nat}
    (h : mem.bytes b n = mem'.bytes b' n) : SameBytes mem b mem' b' n :=
  fun _ hi => Memory.apply_eq_of_bytes_eq h hi

theorem SameBytes.symm {mem mem' : Memory} {b b' n : Nat}
    (h : SameBytes mem b mem' b' n) : SameBytes mem' b' mem b n :=
  fun i hi => (h i hi).symm

theorem SameBytes.mono {mem mem' : Memory} {b b' m n : Nat}
    (h : SameBytes mem b mem' b' n) (hle : m <= n) :
    SameBytes mem b mem' b' m :=
  fun i hi => h i (Nat.lt_of_lt_of_le hi hle)

/-- Two reads that both fail, or that both succeed at the same distance, at
most `e`, with related values. -/
inductive BothRead {beta : Type} (b b' e : Nat) (R : beta -> beta -> Prop) :
    Option (Nat × beta) -> Option (Nat × beta) -> Prop where
  | none : BothRead b b' e R none none
  | some {j : Nat} {x x' : beta} (hj : j <= e) (hx : R x x') :
      BothRead b b' e R (some (b + j, x)) (some (b' + j, x'))

/-- The same for a step that also leaves a value behind when it fails. -/
inductive BothStep {beta : Type} (b b' e : Nat) (R : beta -> beta -> Prop) :
    Option Nat × beta -> Option Nat × beta -> Prop where
  | failed {x x' : beta} : BothStep b b' e R (none, x) (none, x')
  | passed {j : Nat} {x x' : beta} (hj : j <= e) (hx : R x x') :
      BothStep b b' e R (some (b + j), x) (some (b' + j), x')

theorem bothStep_ite {beta : Type} {b b' e : Nat} {R : beta -> beta -> Prop}
    {c : Prop} [Decidable c] {x x' y y' : Option Nat × beta}
    (hthen : c -> BothStep b b' e R x x')
    (helse : ¬ c -> BothStep b b' e R y y') :
    BothStep b b' e R (if c then x else y) (if c then x' else y') := by
  by_cases hc : c
  · rw [if_pos hc, if_pos hc]
    exact hthen hc
  · rw [if_neg hc, if_neg hc]
    exact helse hc

/-- Slices at the same distance from two places, within `n` bytes. -/
inductive ConstString.Moved (b b' n : Nat) :
    ConstString -> ConstString -> Prop where
  | null : Moved b b' n ConstString.init ConstString.init
  | slice {i len : Nat} (h : i + len <= n) :
      Moved b b' n ⟨some (b + i), len⟩ ⟨some (b' + i), len⟩

structure HekaField.Moved (b b' n : Nat) (f f' : HekaField) : Prop where
  name : f.name.Moved b b' n f'.name
  representation : f.representation.Moved b b' n f'.representation
  value : f.value.Moved b b' n f'.value
  valueType : f.valueType = f'.valueType

structure HekaMessage.Moved (b b' n : Nat) (m m' : HekaMessage) : Prop where
  raw : m.raw.Moved b b' n m'.raw
  uuid : m.uuid.Moved b b' n m'.uuid
  type : m.type.Moved b b' n m'.type
  logger : m.logger.Moved b b' n m'.logger
  payload : m.payload.Moved b b' n m'.payload
  envVersion : m.envVersion.Moved b b' n m'.envVersion
  hostname : m.hostname.Moved b b' n m'.hostname
  fields : List.Forall₂ (HekaField.Moved b b' n) m.fields m'.fields
  timestamp : m.timestamp = m'.timestamp
  severity : m.severity = m'.severity
  pid : m.pid = m'.pid

theorem ConstString.Moved.null_iff {b b' n : Nat} {s s' : ConstString}
    (h : s.Moved b b' n s') : s.s = none <-> s'.s = none := by
  cases h with
  | null => exact Iff.rfl
  | slice _ => exact ⟨nofun, nofun⟩

theorem ConstString.Moved.len_eq {b b' n : Nat} {s s' : ConstString}
    (h : s.Moved b b' n s') : s.len = s'.len := by
  cases h with
  | null => rfl
  | slice _ => rfl

theorem moved_clear (b b' n : Nat) :
    HekaMessage.Moved b b' n lsbClearHekaMessage lsbClearHekaMessage where
  raw := ConstString.Moved.null
  uuid := ConstString.Moved.null
  type := ConstString.Moved.null
  logger := ConstString.Moved.null
  payload := ConstString.Moved.null
  envVersion := ConstString.Moved.null
  hostname := ConstString.Moved.null
  fields := List.Forall₂.nil
  timestamp := rfl
  severity := rfl
  pid := rfl

theorem moved_initField (b b' n : Nat) :
    HekaField.Moved b b' n HekaField.init HekaField.init :=
  ⟨ConstString.Moved.null, ConstString.Moved.null, ConstString.Moved.null,
    rfl⟩

/-!
## Reading
-/

section

variable {mem mem' : Memory} {b b' n : Nat}

theorem readVarintLoop_bothRead {e : Nat}
    (h : SameBytes mem b mem' b' n) (he : e <= n) :
    forall (k i shift vi : Nat), i <= e ->
      BothRead b b' e (fun v v' => v = v')
        (readVarintLoop mem (b + e) k (b + i) shift vi)
        (readVarintLoop mem' (b' + e) k (b' + i) shift vi)
  | 0, _, _, _, _ => BothRead.none
  | k + 1, i, shift, vi, hi => by
      simp only [readVarintLoop, Nat.add_left_cancel_iff]
      by_cases hend : i = e
      · rw [if_pos hend, if_pos hend]
        exact BothRead.none
      · have hlt : i < e := Nat.lt_of_le_of_ne hi hend
        rw [if_neg hend, if_neg hend, h i (Nat.lt_of_lt_of_le hlt he)]
        split
        · exact BothRead.some hlt rfl
        · exact readVarintLoop_bothRead h he k (i + 1) _ _ hlt

theorem lsbPbReadVarint_bothRead {e i : Nat}
    (h : SameBytes mem b mem' b' n) (he : e <= n) (hi : i <= e) :
    BothRead b b' e (fun v v' => v = v')
      (lsbPbReadVarint mem (b + i) (b + e))
      (lsbPbReadVarint mem' (b' + i) (b' + e)) :=
  readVarintLoop_bothRead h he _ i 0 0 hi

theorem readString_bothRead {e i wiretype : Nat}
    (h : SameBytes mem b mem' b' n) (he : e <= n) (hi : i <= e) :
    BothRead b b' e (ConstString.Moved b b' n)
      (readString mem wiretype (b + i) (b + e))
      (readString mem' wiretype (b' + i) (b' + e)) := by
  unfold readString
  split
  · exact BothRead.none
  · have hvarint := lsbPbReadVarint_bothRead h he hi
    generalize lsbPbReadVarint mem (b + i) (b + e) = r at hvarint ⊢
    generalize lsbPbReadVarint mem' (b' + i) (b' + e) = r' at hvarint ⊢
    cases hvarint with
    | none => exact BothRead.none
    | @some j vi vi' hj hvi =>
        cases hvi
        simp only [Nat.add_assoc, Nat.add_lt_add_iff_left]
        split
        · exact BothRead.none
        · rename_i hfit
          have hle : j + vi <= e := by omega
          exact BothRead.some hle
            (ConstString.Moved.slice (Nat.le_trans hle he))

theorem processVarint_bothRead {e i wiretype : Nat}
    (h : SameBytes mem b mem' b' n) (he : e <= n) (hi : i <= e) :
    BothRead b b' e (fun v v' => v = v')
      (processVarint mem wiretype (b + i) (b + e))
      (processVarint mem' wiretype (b' + i) (b' + e)) := by
  unfold processVarint
  split
  · exact BothRead.none
  · have hvarint := lsbPbReadVarint_bothRead h he hi
    generalize lsbPbReadVarint mem (b + i) (b + e) = r at hvarint ⊢
    generalize lsbPbReadVarint mem' (b' + i) (b' + e) = r' at hvarint ⊢
    cases hvarint with
    | none => exact BothRead.none
    | some hj hvi =>
        cases hvi
        exact BothRead.some hj rfl

/-!
## Fields
-/

theorem lsbPbReadKey_same {i : Nat} (h : SameBytes mem b mem' b' n)
    (hi : i < n) :
    lsbPbReadKey mem (b + i) =
        (b + (i + 1), (mem (b + i)).toNat >>> 3, (mem (b + i)).toNat &&& 7) ∧
      lsbPbReadKey mem' (b' + i) =
        (b' + (i + 1), (mem (b + i)).toNat >>> 3,
          (mem (b + i)).toNat &&& 7) := by
  refine ⟨rfl, ?_⟩
  rw [h i hi]
  rfl

theorem packedLength_same {e i : Nat} (h : SameBytes mem b mem' b' n)
    (he : e <= n) (hi : i <= e) :
    (packedLength mem (b + i) (b + e) = none ∧
        packedLength mem' (b' + i) (b' + e) = none) ∨
      exists j, j <= e ∧ packedLength mem (b + i) (b + e) = some (b + j) ∧
        packedLength mem' (b' + i) (b' + e) = some (b' + j) := by
  have hvarint := lsbPbReadVarint_bothRead h he hi
  unfold packedLength
  generalize lsbPbReadVarint mem (b + i) (b + e) = r at hvarint ⊢
  generalize lsbPbReadVarint mem' (b' + i) (b' + e) = r' at hvarint ⊢
  cases hvarint with
  | none => exact Or.inl ⟨rfl, rfl⟩
  | @some j vi vi' hj hvi =>
      cases hvi
      simp only [Nat.add_assoc, Nat.add_lt_add_iff_left]
      split
      · exact Or.inl ⟨rfl, rfl⟩
      · exact Or.inr ⟨j, hj, rfl, rfl⟩

/-- The region of a value reaches to the end of its record. -/
theorem moved_region {e i : Nat} (he : e <= n) (hi : i <= e) :
    ConstString.Moved b b' n ⟨some (b + i), b + e - (b + i)⟩
      ⟨some (b' + i), b' + e - (b' + i)⟩ := by
  rw [Nat.add_sub_add_left, Nat.add_sub_add_left]
  exact ConstString.Moved.slice (by omega)

theorem processFieldsEntry_bothStep {e i : Nat} {f f' : HekaField}
    (h : SameBytes mem b mem' b' n) (he : e <= n) (hi : i < e)
    (hf : f.Moved b b' n f') :
    BothStep b b' e (HekaField.Moved b b' n)
      (processFieldsEntry mem (b + e) f (b + i))
      (processFieldsEntry mem' (b' + e) f' (b' + i)) := by
  rcases lsbPbReadKey_same h (Nat.lt_of_lt_of_le hi he) with ⟨hkey, hkey'⟩
  unfold processFieldsEntry
  rw [hkey, hkey']
  generalize (mem (b + i)).toNat >>> 3 = tag
  generalize (mem (b + i)).toNat &&& 7 = wiretype
  have hstring : BothRead b b' e (ConstString.Moved b b' n)
      (readString mem wiretype (b + (i + 1)) (b + e))
      (readString mem' wiretype (b' + (i + 1)) (b' + e)) :=
    readString_bothRead h he hi
  have hvarint : BothRead b b' e (fun v v' => v = v')
      (processVarint mem wiretype (b + (i + 1)) (b + e))
      (processVarint mem' wiretype (b' + (i + 1)) (b' + e)) :=
    processVarint_bothRead h he hi
  have hpacked := packedLength_same h he hi
  dsimp only
  generalize readString mem wiretype (b + (i + 1)) (b + e) = r
    at hstring ⊢
  generalize readString mem' wiretype (b' + (i + 1)) (b' + e) = r'
    at hstring ⊢
  generalize processVarint mem wiretype (b + (i + 1)) (b + e) = v
    at hvarint ⊢
  generalize processVarint mem' wiretype (b' + (i + 1)) (b' + e) = v'
    at hvarint ⊢
  refine bothStep_ite (fun _ => ?_) (fun _ => ?_)
  · cases hstring with
    | none => exact BothStep.failed
    | some hj hs => exact BothStep.passed hj { hf with name := hs }
  refine bothStep_ite (fun _ => ?_) (fun _ => ?_)
  · cases hvarint with
    | none => exact BothStep.failed
    | some hj hv =>
        exact BothStep.passed hj { hf with valueType := congrArg toInt hv }
  refine bothStep_ite (fun _ => ?_) (fun _ => ?_)
  · cases hstring with
    | none => exact BothStep.failed
    | some hj hs => exact BothStep.passed hj { hf with representation := hs }
  refine bothStep_ite (fun _ => ?_) (fun _ => ?_)
  · exact bothStep_ite (fun _ => BothStep.failed) (fun _ =>
      BothStep.passed (Nat.le_refl e)
        { hf with value := moved_region he (Nat.le_of_lt hi) })
  refine bothStep_ite (fun _ => ?_) (fun _ => BothStep.failed)
  refine bothStep_ite (fun _ => BothStep.failed) (fun _ => ?_)
  refine bothStep_ite (fun _ => BothStep.failed) (fun _ => ?_)
  refine bothStep_ite (fun _ => ?_) (fun _ => ?_)
  · rcases hpacked with ⟨hnone, hnone'⟩ | ⟨j, hj, hsome, hsome'⟩
    · rw [hnone, hnone']
      exact BothStep.failed
    · rw [hsome, hsome']
      exact BothStep.passed (Nat.le_refl e)
        { hf with value := moved_region he hj }
  · exact BothStep.passed (Nat.le_refl e)
      { hf with value := moved_region he hi }

theorem processFieldsLoop_bothStep {e : Nat}
    (h : SameBytes mem b mem' b' n) (he : e <= n) :
    forall (k : Nat) (f f' : HekaField) (i : Nat), i < e ->
      f.Moved b b' n f' ->
      BothStep b b' e (HekaField.Moved b b' n)
        (processFieldsLoop mem (b + e) k f (b + i))
        (processFieldsLoop mem' (b' + e) k f' (b' + i))
  | 0, _, _, _, _, _ => BothStep.failed
  | k + 1, f, f', i, hi, hf => by
      have hentry := processFieldsEntry_bothStep h he hi hf
      simp only [processFieldsLoop]
      generalize processFieldsEntry mem (b + e) f (b + i) = r at hentry ⊢
      generalize processFieldsEntry mem' (b' + e) f' (b' + i) = r' at hentry ⊢
      cases hentry with
      | failed => exact BothStep.failed
      | passed hj hx =>
          simp only [Nat.add_lt_add_iff_left]
          split
          · rename_i hlt
            exact processFieldsLoop_bothStep h he k _ _ _ hlt hx
          · exact BothStep.passed hj hx

end

/-!
## Field records
-/

theorem readString_beyond {mem : Memory} {wiretype p e : Nat} (h : e <= p) :
    readString mem wiretype p e = none := by
  unfold readString
  split
  · rfl
  · split
    · rfl
    · rename_i p' vi hvarint
      have hlt : p < p' := readVarintLoop_lt hvarint
      rw [if_pos (Or.inr (by omega))]

theorem packedLength_beyond {mem : Memory} {p e : Nat} (h : e <= p) :
    packedLength mem p e = none := by
  unfold packedLength
  split
  · rfl
  · rename_i p' vi hvarint
    have hlt : p < p' := readVarintLoop_lt hvarint
    rw [if_pos (Or.inr (by omega))]

theorem processVarint_lt {mem : Memory} {wiretype p e p' : Nat} {v : Int}
    (h : processVarint mem wiretype p e = some (p', v)) : p < p' := by
  unfold processVarint at h
  split at h
  · cases h
  · split at h
    · cases h
    · rename_i q vi hvarint
      cases h
      exact readVarintLoop_lt hvarint

theorem processFieldsEntry_empty {mem : Memory} {p : Nat} {f f' : HekaField}
    {r : Option Nat} (h : processFieldsEntry mem p f p = (r, f')) :
    f'.name = f.name ∧ forall q, r = some q -> p <= q := by
  have hp : p <= p + 1 := Nat.le_succ p
  have hkey : lsbPbReadKey mem p =
      (p + 1, (mem p).toNat >>> 3, (mem p).toNat &&& 7) := rfl
  unfold processFieldsEntry at h
  rw [hkey] at h
  dsimp only at h
  rw [readString_beyond hp, packedLength_beyond hp] at h
  split at h
  · cases h
    exact ⟨rfl, nofun⟩
  split at h
  · split at h
    · cases h
      exact ⟨rfl, nofun⟩
    · rename_i q v hvarint
      have hlt := processVarint_lt hvarint
      cases h
      refine ⟨rfl, fun q' hq => ?_⟩
      cases hq
      omega
  split at h
  · cases h
    exact ⟨rfl, nofun⟩
  split at h
  · split at h
    · cases h
      exact ⟨rfl, nofun⟩
    · cases h
      exact ⟨rfl, fun q hq => Nat.le_of_eq (Option.some.inj hq)⟩
  split at h
  · split at h
    · cases h
      exact ⟨rfl, nofun⟩
    split at h
    · cases h
      exact ⟨rfl, nofun⟩
    split at h
    · cases h
      exact ⟨rfl, nofun⟩
    · cases h
      exact ⟨rfl, fun q hq => Nat.le_of_eq (Option.some.inj hq)⟩
  · cases h
    exact ⟨rfl, nofun⟩

/-- An empty field record has no room for a name. -/
theorem processFieldsLoop_empty (mem : Memory) (k p : Nat) :
    (processFieldsLoop mem p k HekaField.init p).1 = none ∨
      (processFieldsLoop mem p k HekaField.init p).2.name.s = none := by
  cases k with
  | zero => exact Or.inl rfl
  | succ k =>
      simp only [processFieldsLoop]
      split
      · exact Or.inl rfl
      · rename_i q f hentry
        rcases processFieldsEntry_empty hentry with ⟨hname, hle⟩
        rw [if_neg (Nat.not_lt.mpr (hle q rfl))]
        exact Or.inr (congrArg ConstString.s hname)

theorem processFields_empty {mem : Memory} {p e q : Nat}
    (h : lsbPbReadVarint mem p e = some (q, 0)) :
    (processFields mem p e).1 = none := by
  unfold processFields
  rw [h]
  dsimp only
  split
  · rfl
  · have hempty := processFieldsLoop_empty mem (0 + 1) q
    rw [Nat.add_zero]
    split
    · rfl
    · rename_i q' f hloop
      rw [hloop] at hempty
      rcases hempty with hnone | hname
      · cases hnone
      · exact if_pos hname

section

variable {mem mem' : Memory} {b b' n : Nat}

theorem bothStep_of_none {beta : Type} {e : Nat} {R : beta -> beta -> Prop}
    {r r' : Option Nat × beta} (h : r.1 = none) (h' : r'.1 = none) :
    BothStep b b' e R r r' := by
  rcases r with ⟨_ | q, x⟩
  · rcases r' with ⟨_ | q', x'⟩
    · exact BothStep.failed
    · cases h'
  · cases h

theorem processFields_bothStep {e i : Nat}
    (h : SameBytes mem b mem' b' n) (he : e <= n) (hi : i <= e) :
    BothStep b b' e (HekaField.Moved b b' n)
      (processFields mem (b + i) (b + e))
      (processFields mem' (b' + i) (b' + e)) := by
  have hvarint := lsbPbReadVarint_bothRead h he hi
  generalize hr : lsbPbReadVarint mem (b + i) (b + e) = r at hvarint
  generalize hr' : lsbPbReadVarint mem' (b' + i) (b' + e) = r' at hvarint
  cases hvarint with
  | none =>
      unfold processFields
      rw [hr, hr']
      exact BothStep.failed
  | @some j vi vi' hj hvi =>
      cases hvi
      by_cases hempty : vi = 0
      · subst hempty
        exact bothStep_of_none (processFields_empty hr)
          (processFields_empty hr')
      · unfold processFields
        rw [hr, hr']
        simp only [Nat.add_assoc, Nat.add_lt_add_iff_left]
        split
        · exact BothStep.failed
        · rename_i hfit
          have hloop := processFieldsLoop_bothStep h
            (show j + vi <= n by omega) (vi + 1) _ _ j
            (show j < j + vi by omega) (moved_initField b b' n)
          generalize processFieldsLoop mem (b + (j + vi)) (vi + 1)
            HekaField.init (b + j) = r at hloop ⊢
          generalize processFieldsLoop mem' (b' + (j + vi)) (vi + 1)
            HekaField.init (b' + j) = r' at hloop ⊢
          cases hloop with
          | failed => exact BothStep.failed
          | passed hj' hf =>
              simp only [hf.name.null_iff]
              split
              · exact BothStep.failed
              · exact BothStep.passed (by omega) hf

/-!
## Messages
-/

/-- The state of decoding: the message and whether it has a timestamp. -/
def MovedState (b b' n : Nat) (x x' : HekaMessage × Bool) : Prop :=
  x.1.Moved b b' n x'.1 ∧ x.2 = x'.2

theorem decodeRecord_bothStep {i : Nat} {m m' : HekaMessage}
    (timestamp : Bool) (h : SameBytes mem b mem' b' n) (hi : i < n)
    (hm : m.Moved b b' n m') :
    BothStep b b' n (MovedState b b' n)
      (decodeRecord mem (b + n) m timestamp (b + i))
      (decodeRecord mem' (b' + n) m' timestamp (b' + i)) := by
  rcases lsbPbReadKey_same h hi with ⟨hkey, hkey'⟩
  unfold decodeRecord
  rw [hkey, hkey']
  generalize (mem (b + i)).toNat >>> 3 = tag
  generalize (mem (b + i)).toNat &&& 7 = wiretype
  have hstring : BothRead b b' n (ConstString.Moved b b' n)
      (readString mem wiretype (b + (i + 1)) (b + n))
      (readString mem' wiretype (b' + (i + 1)) (b' + n)) :=
    readString_bothRead h (Nat.le_refl n) hi
  have hvarint : BothRead b b' n (fun v v' => v = v')
      (processVarint mem wiretype (b + (i + 1)) (b + n))
      (processVarint mem' wiretype (b' + (i + 1)) (b' + n)) :=
    processVarint_bothRead h (Nat.le_refl n) hi
  have hfields := processFields_bothStep h (Nat.le_refl n) hi
  dsimp only
  generalize readString mem wiretype (b + (i + 1)) (b + n) = r
    at hstring ⊢
  generalize readString mem' wiretype (b' + (i + 1)) (b' + n) = r'
    at hstring ⊢
  generalize processVarint mem wiretype (b + (i + 1)) (b + n) = v
    at hvarint ⊢
  generalize processVarint mem' wiretype (b' + (i + 1)) (b' + n) = v'
    at hvarint ⊢
  generalize processFields mem (b + (i + 1)) (b + n) = f at hfields ⊢
  generalize processFields mem' (b' + (i + 1)) (b' + n) = f' at hfields ⊢
  refine bothStep_ite (fun _ => ?_) (fun _ => ?_)
  · cases hstring with
    | none => exact BothStep.failed
    | some hj hs =>
        simp only [hs.len_eq]
        split
        · exact BothStep.failed
        · exact BothStep.passed hj ⟨{ hm with uuid := hs }, rfl⟩
  refine bothStep_ite (fun _ => ?_) (fun _ => ?_)
  · cases hvarint with
    | none => exact BothStep.failed
    | some hj hv =>
        exact BothStep.passed hj ⟨{ hm with timestamp := hv }, rfl⟩
  refine bothStep_ite (fun _ => ?_) (fun _ => ?_)
  · cases hstring with
    | none => exact BothStep.failed
    | some hj hs => exact BothStep.passed hj ⟨{ hm with type := hs }, rfl⟩
  refine bothStep_ite (fun _ => ?_) (fun _ => ?_)
  · cases hstring with
    | none => exact BothStep.failed
    | some hj hs => exact BothStep.passed hj ⟨{ hm with logger := hs }, rfl⟩
  refine bothStep_ite (fun _ => ?_) (fun _ => ?_)
  · cases hvarint with
    | none => exact BothStep.failed
    | some hj hv =>
        exact BothStep.passed hj
          ⟨{ hm with severity := congrArg toInt hv }, rfl⟩
  refine bothStep_ite (fun _ => ?_) (fun _ => ?_)
  · cases hstring with
    | none => exact BothStep.failed
    | some hj hs =>
        exact BothStep.passed hj ⟨{ hm with payload := hs }, rfl⟩
  refine bothStep_ite (fun _ => ?_) (fun _ => ?_)
  · cases hstring with
    | none => exact BothStep.failed
    | some hj hs =>
        exact BothStep.passed hj ⟨{ hm with envVersion := hs }, rfl⟩
  refine bothStep_ite (fun _ => ?_) (fun _ => ?_)
  · cases hvarint with
    | none => exact BothStep.failed
    | some hj hv =>
        exact BothStep.passed hj ⟨{ hm with pid := congrArg toInt hv }, rfl⟩
  refine bothStep_ite (fun _ => ?_) (fun _ => ?_)
  · cases hstring with
    | none => exact BothStep.failed
    | some hj hs =>
        exact BothStep.passed hj ⟨{ hm with hostname := hs }, rfl⟩
  refine bothStep_ite (fun _ => ?_) (fun _ => BothStep.failed)
  refine bothStep_ite (fun _ => BothStep.failed) (fun _ => ?_)
  cases hfields with
  | failed => exact BothStep.failed
  | passed hj hf =>
      have happend :=
        List.rel_append hm.fields (List.Forall₂.cons hf List.Forall₂.nil)
      exact BothStep.passed hj ⟨{ hm with fields := happend }, rfl⟩

/-- Both fail, or both succeed and leave related states behind. -/
def BothDone {beta : Type} (R : beta -> beta -> Prop)
    (r r' : Bool × beta) : Prop :=
  r.1 = r'.1 ∧ (r.1 = true -> R r.2 r'.2)

theorem decodeLoop_bothDone (h : SameBytes mem b mem' b' n) :
    forall (k : Nat) (m m' : HekaMessage) (timestamp : Bool) (i : Nat),
      i < n -> m.Moved b b' n m' ->
      BothDone (MovedState b b' n)
        (decodeLoop mem (b + n) k m timestamp (b + i))
        (decodeLoop mem' (b' + n) k m' timestamp (b' + i))
  | 0, _, _, _, _, _, _ => ⟨rfl, nofun⟩
  | k + 1, m, m', timestamp, i, hi, hm => by
      have hrecord := decodeRecord_bothStep timestamp h hi hm
      simp only [decodeLoop]
      generalize decodeRecord mem (b + n) m timestamp (b + i) = r
        at hrecord ⊢
      generalize decodeRecord mem' (b' + n) m' timestamp (b' + i) = r'
        at hrecord ⊢
      cases hrecord with
      | failed => exact ⟨rfl, nofun⟩
      | @passed j x x' hj hx =>
          rcases x with ⟨x, t⟩
          rcases x' with ⟨x', t'⟩
          rcases hx with ⟨hx, ht⟩
          cases ht
          simp only [Nat.add_lt_add_iff_left]
          split
          · rename_i hlt
            exact decodeLoop_bothDone h k _ _ _ _ hlt hx
          · exact ⟨rfl, fun _ => ⟨hx, rfl⟩⟩

/-- Decoding looks at the bytes of the message only. -/
theorem lsbDecodeHekaMessage_bothDone (h : SameBytes mem b mem' b' n) :
    BothDone (HekaMessage.Moved b b' n)
      (lsbDecodeHekaMessage mem b n) (lsbDecodeHekaMessage mem' b' n) := by
  unfold lsbDecodeHekaMessage
  split
  · exact ⟨rfl, nofun⟩
  · rename_i hne
    have hloop := decodeLoop_bothDone h n _ _ false 0
      (Nat.pos_of_ne_zero hne) (moved_clear b b' n)
    simp only [Nat.add_zero] at hloop
    generalize decodeLoop mem (b + n) n lsbClearHekaMessage false b = r
      at hloop ⊢
    generalize decodeLoop mem' (b' + n) n lsbClearHekaMessage false b' = r'
      at hloop ⊢
    rcases r with ⟨ok, m, t⟩
    rcases r' with ⟨ok', m', t'⟩
    rcases hloop with ⟨hok, hmoved⟩
    cases hok
    cases ok with
    | false => exact ⟨rfl, nofun⟩
    | true =>
        rcases hmoved rfl with ⟨hm, ht⟩
        cases ht
        simp only [hm.uuid.null_iff]
        split
        · exact ⟨rfl, nofun⟩
        split
        · exact ⟨rfl, nofun⟩
        · exact ⟨rfl, fun _ => { hm with
            raw := ConstString.Moved.slice (i := 0) (by omega) }⟩

/-!
## Contents of messages
-/

/-- The contents of a slice; a null slice has none. -/
def ConstString.contents (mem : Memory) (s : ConstString) :
    Option (List UInt8) :=
  s.s.map (fun p => mem.bytes p s.len)

structure FieldContents where
  name : Option (List UInt8)
  representation : Option (List UInt8)
  value : Option (List UInt8)
  valueType : Int
  deriving DecidableEq

def HekaField.contents (mem : Memory) (f : HekaField) : FieldContents where
  name := f.name.contents mem
  representation := f.representation.contents mem
  value := f.value.contents mem
  valueType := f.valueType

/-- A message with its slices replaced by the bytes in them. -/
structure MessageContents where
  raw : Option (List UInt8)
  uuid : Option (List UInt8)
  type : Option (List UInt8)
  logger : Option (List UInt8)
  payload : Option (List UInt8)
  envVersion : Option (List UInt8)
  hostname : Option (List UInt8)
  fields : List FieldContents
  timestamp : Int
  severity : Int
  pid : Int
  deriving DecidableEq

def HekaMessage.contents (mem : Memory) (m : HekaMessage) :
    MessageContents where
  raw := m.raw.contents mem
  uuid := m.uuid.contents mem
  type := m.type.contents mem
  logger := m.logger.contents mem
  payload := m.payload.contents mem
  envVersion := m.envVersion.contents mem
  hostname := m.hostname.contents mem
  fields := m.fields.map (HekaField.contents mem)
  timestamp := m.timestamp
  severity := m.severity
  pid := m.pid

theorem ConstString.Moved.contents_eq {s s' : ConstString}
    (hs : s.Moved b b' n s') (h : SameBytes mem b mem' b' n) :
    s.contents mem = s'.contents mem' := by
  cases hs with
  | null => rfl
  | @slice i len hle =>
      refine congrArg some (Memory.bytes_congr (fun k hk => ?_))
      change k < len at hk
      rw [Nat.add_assoc, Nat.add_assoc]
      exact h (i + k) (by omega)

theorem HekaField.Moved.contents_eq {f f' : HekaField}
    (hf : f.Moved b b' n f') (h : SameBytes mem b mem' b' n) :
    f.contents mem = f'.contents mem' := by
  simp only [HekaField.contents, hf.name.contents_eq h,
    hf.representation.contents_eq h, hf.value.contents_eq h, hf.valueType]

/-- Related messages have the same contents. -/
theorem HekaMessage.Moved.contents_eq {m m' : HekaMessage}
    (hm : m.Moved b b' n m') (h : SameBytes mem b mem' b' n) :
    m.contents mem = m'.contents mem' := by
  have hfields : m.fields.map (HekaField.contents mem) =
      m'.fields.map (HekaField.contents mem') := by
    have hrelated := hm.fields
    generalize m.fields = fs at hrelated ⊢
    generalize m'.fields = fs' at hrelated ⊢
    induction hrelated with
    | nil => rfl
    | cons hf _ ih =>
        rw [List.map_cons, List.map_cons, hf.contents_eq h, ih]
  simp only [HekaMessage.contents, hm.raw.contents_eq h,
    hm.uuid.contents_eq h, hm.type.contents_eq h, hm.logger.contents_eq h,
    hm.payload.contents_eq h, hm.envVersion.contents_eq h,
    hm.hostname.contents_eq h, hfields, hm.timestamp, hm.severity, hm.pid]

end

/-- Every slice of the message lies in the `n` bytes at `b`. -/
def HekaMessage.Within (b n : Nat) (m : HekaMessage) : Prop :=
  m.Moved b b n m

theorem ConstString.Moved.widen {b k n e : Nat} {s : ConstString}
    (h : s.Moved (b + k) (b + k) n s) (hle : k + n <= e) :
    s.Moved b b e s := by
  generalize hs : s = t at h
  have ht : s.Moved (b + k) (b + k) n t := by
    rw [hs]
    exact h
  cases ht with
  | null =>
      rw [← hs]
      exact ConstString.Moved.null
  | slice hfit =>
      rw [← hs, Nat.add_assoc]
      exact ConstString.Moved.slice (by omega)

theorem HekaMessage.Within.widen {b k n e : Nat} {m : HekaMessage}
    (h : m.Within (b + k) n) (hle : k + n <= e) : m.Within b e where
  raw := h.raw.widen hle
  uuid := h.uuid.widen hle
  type := h.type.widen hle
  logger := h.logger.widen hle
  payload := h.payload.widen hle
  envVersion := h.envVersion.widen hle
  hostname := h.hostname.widen hle
  fields := List.forall₂_same.mpr (fun f hf => by
    have hfield := List.forall₂_same.mp h.fields f hf
    exact ⟨hfield.name.widen hle, hfield.representation.widen hle,
      hfield.value.widen hle, rfl⟩)
  timestamp := rfl
  severity := rfl
  pid := rfl

/-- The slices of a decoded message lie in the bytes it was decoded from. -/
theorem lsbDecodeHekaMessage_within {mem : Memory} {b n : Nat}
    (h : (lsbDecodeHekaMessage mem b n).1 = true) :
    (lsbDecodeHekaMessage mem b n).2.Within b n :=
  (lsbDecodeHekaMessage_bothDone (sameBytes_self mem b n)).2 h

/-- The bytes are a message. -/
def decodes (payload : List UInt8) : Bool :=
  (lsbDecodeHekaMessage (Memory.ofList payload) 0 payload.length).1

/-- The contents of the message that the bytes are. -/
def decoded (payload : List UInt8) : MessageContents :=
  (lsbDecodeHekaMessage (Memory.ofList payload) 0 payload.length).2.contents
    (Memory.ofList payload)

theorem sameBytes_ofList (mem : Memory) (b n : Nat) :
    SameBytes mem b (Memory.ofList (mem.bytes b n)) 0 n := by
  intro i hi
  rw [Nat.zero_add, Memory.ofList, List.getD_eq_getElem _ _ (by simpa)]
  exact (Memory.getElem_bytes mem b n i _).symm

theorem lsbDecodeHekaMessage_eq_decodes (mem : Memory) (b n : Nat) :
    (lsbDecodeHekaMessage mem b n).1 = decodes (mem.bytes b n) := by
  have h := (lsbDecodeHekaMessage_bothDone (sameBytes_ofList mem b n)).1
  rw [decodes, Memory.length_bytes]
  exact h

theorem lsbDecodeHekaMessage_contents {mem : Memory} {b n : Nat}
    (h : (lsbDecodeHekaMessage mem b n).1 = true) :
    (lsbDecodeHekaMessage mem b n).2.contents mem =
      decoded (mem.bytes b n) := by
  have hsame := sameBytes_ofList mem b n
  have hmoved := (lsbDecodeHekaMessage_bothDone hsame).2 h
  rw [decoded, Memory.length_bytes]
  exact hmoved.contents_eq hsame

end Util
end LuaSandbox
