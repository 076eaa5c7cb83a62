import LuaSandbox.Util.OutputCalls
import LuaSandbox.Util.Unescape

/-!
# Serialization of binary data

The text that is written for a byte string, between the double quotes of a
preserved Lua file, and what the unescaping of that text gives.
-/

namespace LuaSandbox
namespace Core

open Foundation
open Util
open Util.Unescape

/-- The `switch` over a byte. -/
def serializeByte (realloc : Allocator) (ob : GrowingBuffer) (c : UInt8) :
    Outcome :=
  match c with
  | 0x0a => ob.lsbOutputs realloc [0x5c, 0x6e]
  | 0x0d => ob.lsbOutputs realloc [0x5c, 0x72]
  | 0x22 => ob.lsbOutputs realloc [0x5c, 0x22]
  | 0x5c => ob.lsbOutputs realloc [0x5c, 0x5c]
  | c => lsbOutputc realloc ob c

/-- The loop; its index is an `unsigned` of 32 bits. -/
def serializeBinaryLoop (realloc : Allocator) (src : List UInt8) :
    Nat -> Nat -> GrowingBuffer -> Option Outcome
  | 0, _, _ => none
  | fuel + 1, i, ob =>
      if h : i < src.length then
        match serializeByte realloc ob src[i] with
        | (Except.ok (), ob) =>
            serializeBinaryLoop realloc src fuel ((i + 1) % 2 ^ 32) ob
        | (Except.error e, ob) => some (Except.error e, ob)
      else
        some (Except.ok (), ob)

def lsbSerializeBinary (realloc : Allocator) (ob : GrowingBuffer)
    (src : List UInt8) (fuel : Nat) : Option Outcome :=
  serializeBinaryLoop realloc src fuel 0 ob

/-!
## The text
-/

/-- What stands for a byte. -/
def byteText (c : UInt8) : List UInt8 :=
  match c with
  | 0x0a => [0x5c, 0x6e]
  | 0x0d => [0x5c, 0x72]
  | 0x22 => [0x5c, 0x22]
  | 0x5c => [0x5c, 0x5c]
  | c => [c]

def binaryText (s : List UInt8) : List UInt8 :=
  s.flatMap byteText

/-- A text that can stand between double quotes: a quote, a backslash and the
end of a line come behind a backslash only, and no end of a line at all. -/
inductive Quotable : List UInt8 -> Prop where
  | nil : Quotable []
  | byte {c : UInt8} {s : List UInt8} (hquote : c ≠ 0x22) (hslash : c ≠ 0x5c)
      (hline : c ≠ 0x0a) (hreturn : c ≠ 0x0d) (h : Quotable s) :
      Quotable (c :: s)
  | pair {c : UInt8} {s : List UInt8} (hline : c ≠ 0x0a) (hreturn : c ≠ 0x0d)
      (h : Quotable s) : Quotable (0x5c :: c :: s)

theorem byteText_cases (c : UInt8) :
    (exists l, byteText c = [0x5c, l] ∧ letterEscape l = some c ∧ l ≠ 0 ∧
      l ≠ 0x0a ∧ l ≠ 0x0d) ∨
    (byteText c = [c] ∧ c ≠ 0x0a ∧ c ≠ 0x0d ∧ c ≠ 0x22 ∧ c ≠ 0x5c) := by
  by_cases hline : c = 0x0a
  · subst hline
    exact Or.inl ⟨0x6e, rfl, rfl, by decide, by decide, by decide⟩
  by_cases hreturn : c = 0x0d
  · subst hreturn
    exact Or.inl ⟨0x72, rfl, rfl, by decide, by decide, by decide⟩
  by_cases hquote : c = 0x22
  · subst hquote
    exact Or.inl ⟨0x22, rfl, rfl, by decide, by decide, by decide⟩
  by_cases hslash : c = 0x5c
  · subst hslash
    exact Or.inl ⟨0x5c, rfl, rfl, by decide, by decide, by decide⟩
  · refine Or.inr ⟨?_, hline, hreturn, hquote, hslash⟩
    unfold byteText
    split
    · exact absurd rfl hline
    · exact absurd rfl hreturn
    · exact absurd rfl hquote
    · exact absurd rfl hslash
    · rfl

theorem binaryText_cons (c : UInt8) (s : List UInt8) :
    binaryText (c :: s) = byteText c ++ binaryText s :=
  List.flatMap_cons

/-- Whatever bytes stand next to each other, the text splits into what stands
for them. -/
theorem binaryText_unescapes (s : List UInt8) :
    Unescapes (binaryText s) s := by
  induction s with
  | nil => exact Unescapes.nil
  | cons c s ih =>
      rw [binaryText_cons]
      rcases byteText_cases c with
        ⟨l, htext, hletter, -⟩ | ⟨htext, -, -, -, hslash⟩
      · rw [htext]
        exact Unescapes.escape (Escape.letter hletter) ih
      · rw [htext]
        exact Unescapes.byte hslash ih

theorem binaryText_quotable (s : List UInt8) : Quotable (binaryText s) := by
  induction s with
  | nil => exact Quotable.nil
  | cons c s ih =>
      rw [binaryText_cons]
      rcases byteText_cases c with
        ⟨l, htext, -, -, hline, hreturn⟩ |
        ⟨htext, hline, hreturn, hquote, hslash⟩
      · rw [htext]
        exact Quotable.pair hline hreturn ih
      · rw [htext]
        exact Quotable.byte hquote hslash hline hreturn ih

theorem zero_notMem_binaryText {s : List UInt8} (hs : 0 ∉ s) :
    0 ∉ binaryText s := by
  intro hzero
  rcases List.mem_flatMap.mp hzero with ⟨c, hc, hmem⟩
  rcases byteText_cases c with ⟨l, htext, -, hl, -⟩ | ⟨htext, -⟩
  · rw [htext] at hmem
    rcases List.mem_cons.mp hmem with h | h
    · exact absurd h (by decide)
    · exact hl (List.mem_singleton.mp h).symm
  · rw [htext] at hmem
    exact hs (List.mem_singleton.mp hmem ▸ hc)

theorem Quotable.notMem_line {s : List UInt8} (h : Quotable s) :
    0x0a ∉ s ∧ 0x0d ∉ s := by
  induction h with
  | nil => exact ⟨List.not_mem_nil, List.not_mem_nil⟩
  | byte hquote hslash hline hreturn h ih =>
      constructor
      · intro hmem
        rcases List.mem_cons.mp hmem with h | h
        · exact hline h.symm
        · exact ih.1 h
      · intro hmem
        rcases List.mem_cons.mp hmem with h | h
        · exact hreturn h.symm
        · exact ih.2 h
  | pair hline hreturn h ih =>
      constructor
      · intro hmem
        rcases List.mem_cons.mp hmem with h | h
        · exact absurd h (by decide)
        rcases List.mem_cons.mp h with h | h
        · exact hline h.symm
        · exact ih.1 h
      · intro hmem
        rcases List.mem_cons.mp hmem with h | h
        · exact absurd h (by decide)
        rcases List.mem_cons.mp h with h | h
        · exact hreturn h.symm
        · exact ih.2 h

/-!
## The writing of the text
-/

theorem serializeByte_eq (realloc : Allocator) (ob : GrowingBuffer)
    (c : UInt8) :
    serializeByte realloc ob c = pushExpanded realloc ob (byteText c) := by
  unfold serializeByte byteText
  split <;> rfl

/-- There is room in the address space and under the maximum, and memory. -/
structure Takes (realloc : Allocator) (ob : GrowingBuffer) (n : Nat) :
    Prop where
  fits : ob.pos + n + 1 <= 2 ^ 63
  belowMaximum : ob.maxsize = 0 ∨ ob.pos + n + 1 <= ob.maxsize
  memory : forall size, exists fresh, realloc size = some fresh

theorem pushExpanded_succeeds {realloc : Allocator} {ob : GrowingBuffer}
    {xs : List UInt8} (hob : ob.Sound) (h : Takes realloc ob xs.length) :
    exists ob', pushExpanded realloc ob xs = (Except.ok (), ob') := by
  have hfits := h.fits
  have hlt := hob.pos_lt
  have hobject := hob.size_le_object
  unfold pushExpanded lsbExpandGrowing
  rw [sizeSub_of_le (Nat.le_of_lt hlt) (by omega),
    Nat.mod_eq_of_lt (a := xs.length + 1) (by omega)]
  by_cases hroom : xs.length + 1 <= ob.size - ob.pos
  · rw [if_pos hroom]
    exact ⟨_, rfl⟩
  · have hmaximum : ¬ (ob.maxsize ≠ 0 ∧
        ob.maxsize < (xs.length + 1 + ob.pos) % 2 ^ 64) := by
      have hbelow := h.belowMaximum
      rw [Nat.mod_eq_of_lt (by omega)]
      omega
    rcases h.memory (ob.capped
      (lsbLp2 ((ob.pos + (xs.length + 1)) % 2 ^ 64))) with ⟨fresh, hfresh⟩
    rw [if_neg hroom, if_neg hmaximum]
    dsimp only
    rw [hfresh]
    exact ⟨_, rfl⟩

theorem pos_of_contents {b c : GrowingBuffer} {xs : List UInt8}
    (h : c.contents = b.contents ++ xs) : c.pos = b.pos + xs.length := by
  have hlength := congrArg List.length h
  rw [List.length_append] at hlength
  unfold GrowingBuffer.contents Memory.bytes at hlength
  simpa using hlength

section

variable {realloc : Allocator} {ob : GrowingBuffer}

/-- After a byte, what stands for it is behind the contents. -/
theorem serializeByte_ok {c : UInt8} {ob' : GrowingBuffer} (hob : ob.Sound)
    (hfits : ob.pos + (byteText c).length + 1 <= 2 ^ 63)
    (h : serializeByte realloc ob c = (Except.ok (), ob')) :
    ob'.Sound ∧ ob'.maxsize = ob.maxsize ∧
      ob'.contents = ob.contents ++ byteText c := by
  have hperforms := @pushExpanded_performs realloc ob (byteText c) hob hfits
  rw [<- serializeByte_eq, h] at hperforms
  exact ⟨hperforms.sound, hperforms.maxsize, (hperforms.written rfl).1⟩

/-- The index is behind the bytes that were read. -/
theorem next_index {p r : List UInt8} {c : UInt8}
    (hlength : (p ++ c :: r).length < 2 ^ 32) :
    (p.length + 1) % 2 ^ 32 = (p ++ [c]).length := by
  rw [List.length_append, List.length_cons] at hlength
  rw [List.length_append, List.length_singleton]
  omega

theorem serializeBinaryLoop_cons {p r : List UInt8} {c : UInt8} {fuel : Nat}
    (hlength : (p ++ c :: r).length < 2 ^ 32) {ob' : GrowingBuffer}
    (h : serializeByte realloc ob c = (Except.ok (), ob')) :
    serializeBinaryLoop realloc (p ++ c :: r) (fuel + 1) p.length ob =
      serializeBinaryLoop realloc (p ++ [c] ++ r) fuel (p ++ [c]).length
        ob' := by
  have hlt : p.length < (p ++ c :: r).length := by
    rw [List.length_append]
    exact Nat.lt_add_of_pos_right (Nat.succ_pos _)
  have hget : (p ++ c :: r)[p.length] = c := by
    rw [List.getElem_append_right (Nat.le_refl _)]
    simp
  rw [serializeBinaryLoop, dif_pos hlt, hget, h]
  dsimp only
  rw [next_index hlength, List.append_assoc, List.singleton_append]

theorem serializeBinaryLoop_nil {p : List UInt8} {fuel : Nat} :
    serializeBinaryLoop realloc p (fuel + 1) p.length ob =
      some (Except.ok (), ob) := by
  rw [serializeBinaryLoop, dif_neg (Nat.lt_irrefl _)]

end

/-- If the loop succeeds, the text of the bytes left is behind the contents. -/
theorem serializeBinaryLoop_ok {realloc : Allocator} (r : List UInt8) :
    forall (p : List UInt8) (fuel : Nat) (ob ob' : GrowingBuffer),
      (p ++ r).length < 2 ^ 32 -> ob.Sound ->
      ob.pos + (binaryText r).length + 1 <= 2 ^ 63 ->
      serializeBinaryLoop realloc (p ++ r) fuel p.length ob =
        some (Except.ok (), ob') ->
      ob'.contents = ob.contents ++ binaryText r := by
  induction r with
  | nil =>
      intro p fuel ob ob' hlength hob hfits h
      cases fuel with
      | zero => cases h
      | succ fuel =>
          rw [List.append_nil, serializeBinaryLoop_nil] at h
          cases h
          exact (List.append_nil _).symm
  | cons c r ih =>
      intro p fuel ob ob' hlength hob hfits h
      rw [binaryText_cons, List.length_append] at hfits
      cases fuel with
      | zero => cases h
      | succ fuel =>
          cases hbyte : serializeByte realloc ob c with
          | mk result ob1 =>
              cases result with
              | error e =>
                  have hlt : p.length < (p ++ c :: r).length := by
                    rw [List.length_append]
                    exact Nat.lt_add_of_pos_right (Nat.succ_pos _)
                  have hget : (p ++ c :: r)[p.length] = c := by
                    rw [List.getElem_append_right (Nat.le_refl _)]
                    simp
                  rw [serializeBinaryLoop, dif_pos hlt, hget, hbyte] at h
                  cases h
              | ok u =>
                  rcases serializeByte_ok hob (by omega) hbyte with
                    ⟨hob1, -, hcontents⟩
                  have hpos := pos_of_contents hcontents
                  rw [serializeBinaryLoop_cons hlength hbyte] at h
                  rw [ih (p ++ [c]) fuel ob1 ob'
                    (by rwa [List.append_assoc, List.singleton_append]) hob1
                    (by omega) h, hcontents, binaryText_cons,
                    List.append_assoc]

/-- With room and memory the loop succeeds. -/
theorem serializeBinaryLoop_succeeds (realloc : Allocator) (r : List UInt8) :
    forall (p : List UInt8) (ob : GrowingBuffer),
      (p ++ r).length < 2 ^ 32 -> ob.Sound ->
      Takes realloc ob (binaryText r).length ->
      exists ob', serializeBinaryLoop realloc (p ++ r) (r.length + 1) p.length
        ob = some (Except.ok (), ob') := by
  induction r with
  | nil =>
      intro p ob hlength hob h
      rw [List.append_nil]
      exact ⟨ob, serializeBinaryLoop_nil⟩
  | cons c r ih =>
      intro p ob hlength hob h
      have hfits := h.fits
      have hbelow := h.belowMaximum
      rw [binaryText_cons, List.length_append] at hfits hbelow
      have hbyte : Takes realloc ob (byteText c).length :=
        ⟨by omega, by omega, h.memory⟩
      rcases pushExpanded_succeeds hob hbyte with ⟨ob1, hpush⟩
      rw [<- serializeByte_eq] at hpush
      rcases serializeByte_ok hob hbyte.fits hpush with
        ⟨hob1, hmaxsize, hcontents⟩
      have hpos := pos_of_contents hcontents
      rw [List.length_cons, serializeBinaryLoop_cons hlength hpush]
      exact ih (p ++ [c]) ob1
        (by rwa [List.append_assoc, List.singleton_append]) hob1
        ⟨by omega, by omega, h.memory⟩

/-- The index never reaches a length of `2 ^ 32` bytes. -/
theorem serializeBinaryLoop_long {realloc : Allocator} {s : List UInt8}
    (hlength : 2 ^ 32 <= s.length) (fuel : Nat) :
    forall (i : Nat) (ob ob' : GrowingBuffer), i < 2 ^ 32 ->
      serializeBinaryLoop realloc s fuel i ob ≠
        some (Except.ok (), ob') := by
  induction fuel with
  | zero =>
      intro i ob ob' hi h
      cases h
  | succ fuel ih =>
      intro i ob ob' hi h
      rw [serializeBinaryLoop,
        dif_pos (Nat.lt_of_lt_of_le hi hlength)] at h
      split at h
      · exact ih _ _ _ (Nat.mod_lt _ (Nat.two_pow_pos 32)) h
      · cases h

/-!
## The round trip
-/

/-- Behind the contents there is a text that can stand between double quotes,
and unescaping it gives the bytes again, with their length. -/
def RoundTrips (s : List UInt8) (ob ob' : GrowingBuffer) : Prop :=
  exists text, ob'.contents = ob.contents ++ text ∧
    Quotable text ∧ 0x0a ∉ text ∧ 0x0d ∉ text ∧
    forall d : List UInt8, text.length < d.length ->
      lsbLuaStringUnescape (some d) (some (text ++ [0])) (some d.length) =
        (Except.ok s.length, some (s ++ 0 :: d.drop (s.length + 1)))

theorem RejectedWithin.not_binaryText {n : Nat} (s : List UInt8) :
    ¬ RejectedWithin n (binaryText s) :=
  fun h => h.not_unescapes s (binaryText_unescapes s)

/-- The text that is written comes back if its length is an `int`. -/
theorem roundTrips_iff {s : List UInt8} (hs : 0 ∉ s)
    {ob ob' : GrowingBuffer}
    (hcontents : ob'.contents = ob.contents ++ binaryText s) :
    RoundTrips s ob ob' <-> (binaryText s).length <= maxInt := by
  have hzero := zero_notMem_binaryText hs
  constructor
  · intro h
    rcases h with ⟨text, htext, -, -, -, hunescape⟩
    rw [hcontents] at htext
    rw [<- List.append_cancel_left htext] at hunescape
    by_contra hlong
    -- a destination one byte larger than the text
    have hd : (binaryText s).length <
        (List.replicate ((binaryText s).length + 1) (0 : UInt8)).length := by
      rw [List.length_replicate]
      exact Nat.lt_succ_self _
    have hover := lsbLuaStringUnescape_overflows hlong
      (RejectedWithin.not_binaryText s) hzero hd
    rw [hunescape _ hd] at hover
    cases hover
  · intro hle
    have hquotable := binaryText_quotable s
    refine ⟨binaryText s, hcontents, hquotable, hquotable.notMem_line.1,
      hquotable.notMem_line.2, ?_⟩
    intro d hd
    exact lsbLuaStringUnescape_unescapes (binaryText_unescapes s) hzero hd hle

/-- The call succeeds with room and memory; whenever it does, the text that it
wrote comes back if and only if it is shorter than `2 ^ 31` bytes. -/
theorem lsbSerializeBinary_roundTrips (s : List UInt8) (hs : 0 ∉ s)
    (realloc : Allocator) (ob : GrowingBuffer) (hob : ob.Sound)
    (hfits : ob.pos + (binaryText s).length + 1 <= 2 ^ 63) :
    (Takes realloc ob (binaryText s).length -> s.length < 2 ^ 32 ->
      exists fuel ob', lsbSerializeBinary realloc ob s fuel =
        some (Except.ok (), ob')) ∧
    (forall fuel ob', lsbSerializeBinary realloc ob s fuel =
        some (Except.ok (), ob') ->
      (RoundTrips s ob ob' <-> (binaryText s).length <= maxInt)) := by
  constructor
  · intro htakes hshort
    rcases serializeBinaryLoop_succeeds realloc s [] ob hshort hob htakes with
      ⟨ob', hrun⟩
    exact ⟨s.length + 1, ob', hrun⟩
  · intro fuel ob' hrun
    by_cases hshort : s.length < 2 ^ 32
    · apply roundTrips_iff hs
      exact serializeBinaryLoop_ok s [] fuel ob ob' hshort hob hfits hrun
    · exact absurd hrun (serializeBinaryLoop_long (Nat.le_of_not_lt hshort)
        fuel 0 ob ob' (Nat.two_pow_pos 32))

/-- A buffer without a maximum, just initialized. -/
def freshBuffer : GrowingBuffer :=
  { buf := fun _ => 0, size := 1024, maxsize := 0, pos := 0 }

theorem freshBuffer_sound : freshBuffer.Sound where
  pos_lt := by decide
  size_le := Or.inl rfl
  size_small := by decide
  size_le_object := by decide

theorem freshBuffer_takes {n : Nat} (h : n + 1 <= 2 ^ 63) :
    Takes (fun _ => some (fun _ => 0)) freshBuffer n where
  fits := by
    change 0 + n + 1 <= 2 ^ 63
    rwa [Nat.zero_add]
  belowMaximum := Or.inl rfl
  memory := fun _ => ⟨_, rfl⟩

/-- An `a`, the ends of a line, a backslash and a quote. -/
theorem lsbSerializeBinary_roundTrips_sample :
    exists fuel ob', lsbSerializeBinary (fun _ => some (fun _ => 0))
        freshBuffer [0x61, 0x0d, 0x0a, 0x5c, 0x22] fuel =
          some (Except.ok (), ob') ∧
      RoundTrips [0x61, 0x0d, 0x0a, 0x5c, 0x22] freshBuffer ob' := by
  have hresult := lsbSerializeBinary_roundTrips
    [0x61, 0x0d, 0x0a, 0x5c, 0x22] (by decide) (fun _ => some (fun _ => 0))
    freshBuffer freshBuffer_sound (by decide)
  rcases hresult.1 (freshBuffer_takes (by decide)) (by decide) with
    ⟨fuel, ob', hrun⟩
  exact ⟨fuel, ob', hrun, (hresult.2 fuel ob' hrun).mpr (by decide)⟩

theorem length_binaryText (s : List UInt8) :
    s.length <= (binaryText s).length ∧
      (binaryText s).length <= 2 * s.length := by
  induction s with
  | nil => exact ⟨Nat.le_refl 0, Nat.le_refl 0⟩
  | cons c s ih =>
      have hbyte : 1 <= (byteText c).length ∧ (byteText c).length <= 2 := by
        rcases byteText_cases c with ⟨l, htext, -⟩ | ⟨htext, -⟩
        · rw [htext]
          exact ⟨Nat.le_succ 1, Nat.le_refl 2⟩
        · rw [htext]
          exact ⟨Nat.le_refl 1, Nat.le_succ 1⟩
      rw [binaryText_cons, List.length_append, List.length_cons]
      omega

/-- `2 ^ 31` letters are written and do not come back. -/
theorem lsbSerializeBinary_roundTrips_long :
    ¬ (forall (s : List UInt8) (realloc : Allocator) (ob ob' : GrowingBuffer)
      (fuel : Nat), 0 ∉ s -> ob.Sound ->
        lsbSerializeBinary realloc ob s fuel = some (Except.ok (), ob') ->
        RoundTrips s ob ob') := by
  intro h
  have hs : 0 ∉ List.replicate 2147483648 (0x61 : UInt8) := by
    intro hzero
    exact absurd (List.eq_of_mem_replicate hzero) (by decide)
  have hlength : (List.replicate 2147483648 (0x61 : UInt8)).length =
      2147483648 := List.length_replicate
  generalize List.replicate 2147483648 (0x61 : UInt8) = s at hs hlength
  have htext := length_binaryText s
  rcases serializeBinaryLoop_succeeds (fun _ => some (fun _ => 0)) s []
    freshBuffer (by rw [List.nil_append]; omega) freshBuffer_sound
    (freshBuffer_takes (by omega)) with ⟨ob', hrun⟩
  have hcontents := serializeBinaryLoop_ok s [] (s.length + 1) freshBuffer ob'
    (by rw [List.nil_append]; omega) freshBuffer_sound
    (freshBuffer_takes (by omega)).fits hrun
  have hlong : ¬ (binaryText s).length <= maxInt := by
    unfold maxInt
    omega
  exact hlong ((roundTrips_iff hs hcontents).mp
    (h s _ freshBuffer ob' (s.length + 1) hs freshBuffer_sound hrun))

end Core
end LuaSandbox
