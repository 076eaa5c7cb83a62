import LuaSandbox.Heka.StreamNeed

/-!
# The message that a reader holds

The slices of the message point into the buffer.  They stay good as long as no
later call moves the buffer or writes over the message.
-/

namespace LuaSandbox
namespace Heka

open Foundation
open Util

/-!
## Messages that were not decoded
-/

theorem decodeRecord_raw (mem : Memory) (ep : Nat) (m : HekaMessage)
    (timestamp : Bool) (cp : Nat) :
    (decodeRecord mem ep m timestamp cp).2.1.raw = m.raw := by
  unfold decodeRecord
  generalize lsbPbReadKey mem cp = key
  rcases key with ⟨cp, tag, wiretype⟩
  dsimp only
  have hite : forall {c : Prop} [Decidable c]
      {x y : Option Nat × HekaMessage × Bool},
      x.2.1.raw = m.raw -> y.2.1.raw = m.raw ->
        (if c then x else y).2.1.raw = m.raw := by
    intro c _ x y hx hy
    split
    · exact hx
    · exact hy
  generalize readString mem wiretype cp ep = string
  generalize processVarint mem wiretype cp ep = varint
  generalize processFields mem cp ep = field
  cases string with
  | none =>
      cases varint with
      | none =>
          repeat' apply hite
          all_goals rfl
      | some varint =>
          repeat' apply hite
          all_goals rfl
  | some string =>
      cases varint with
      | none =>
          repeat' apply hite
          all_goals rfl
      | some varint =>
          repeat' apply hite
          all_goals rfl

theorem decodeLoop_raw (mem : Memory) (ep : Nat) (n : Nat) :
    forall (m : HekaMessage) (timestamp : Bool) (cp : Nat),
      (decodeLoop mem ep n m timestamp cp).2.1.raw = m.raw := by
  induction n with
  | zero =>
      intro m timestamp cp
      rfl
  | succ n ih =>
      intro m timestamp cp
      have hraw := decodeRecord_raw mem ep m timestamp cp
      unfold decodeLoop
      generalize decodeRecord mem ep m timestamp cp = r at hraw
      rcases r with ⟨cp', m', timestamp'⟩
      change m'.raw = m.raw at hraw
      cases cp' with
      | none => exact hraw
      | some cp' =>
          dsimp only
          split
          · rw [ih, hraw]
          · exact hraw

/-- A message that cannot be decoded is not held. -/
theorem lsbDecodeHekaMessage_raw (mem : Memory) (buf len : Nat) :
    (lsbDecodeHekaMessage mem buf len).2.raw =
      if (lsbDecodeHekaMessage mem buf len).1 then ⟨some buf, len⟩
      else ConstString.init := by
  unfold lsbDecodeHekaMessage
  split
  · rfl
  have hraw := decodeLoop_raw mem (buf + len) len lsbClearHekaMessage false buf
  generalize decodeLoop mem (buf + len) len lsbClearHekaMessage false buf = r
    at hraw
  rcases r with ⟨ok, m, timestamp⟩
  change m.raw = ConstString.init at hraw
  cases ok with
  | false => exact hraw
  | true =>
      dsimp only
      split
      · exact hraw
      split
      · exact hraw
      · rfl

/-!
## What a search leaves in the message
-/

/-- A message whose slices all lie in its raw bytes, which lie in the `n`
bytes at `b`. -/
structure Held (b n : Nat) (m : HekaMessage) : Prop where
  raw : exists p len, m.raw = ⟨some p, len⟩ ∧ b <= p ∧ p + len <= b + n
  within : forall p, m.raw.s = some p -> m.Within p m.raw.len

theorem held_of_decoded {mem : Memory} {p len b n : Nat}
    (h : (lsbDecodeHekaMessage mem p len).1 = true) (hlow : b <= p)
    (hhigh : p + len <= b + n) :
    Held b n (lsbDecodeHekaMessage mem p len).2 := by
  have hraw := lsbDecodeHekaMessage_raw mem p len
  rw [h, if_pos rfl] at hraw
  refine ⟨⟨p, len, hraw, hlow, hhigh⟩, fun p' hp' => ?_⟩
  rw [hraw] at hp' ⊢
  cases hp'
  exact lsbDecodeHekaMessage_within h

theorem held_raw {p len b n : Nat} (hlow : b <= p)
    (hhigh : p + len <= b + n) :
    Held b n { lsbClearHekaMessage with raw := ⟨some p, len⟩ } := by
  refine ⟨⟨p, len, rfl, hlow, hhigh⟩, fun p' hp' => ?_⟩
  cases hp'
  exact within_raw (Nat.le_refl _) (Nat.le_refl _)

theorem Held.widen {b n n' : Nat} {m : HekaMessage} (h : Held b n m)
    (hle : n <= n') : Held b n' m := by
  rcases h.raw with ⟨p, len, hraw, hlow, hhigh⟩
  exact ⟨⟨p, len, hraw, hlow, by omega⟩, h.within⟩

/-- What a look at a record separator delivers: a message that is held, one
that could not be decoded, or the message from before. -/
inductive Kept (mem : Memory) (m : HekaMessage) (ib : InputBuffer) :
    Examined ib -> Prop where
  | wait {msglen : Nat} : Kept mem m ib (Examined.wait msglen)
  | skipped {msglen : Nat}
      (hframed : examine mem m ib false = Examined.resync m msglen) :
      Kept mem m ib (Examined.resync m msglen)
  | undecoded {m' : HekaMessage} {msglen : Nat} (hraw : m'.raw.s = none) :
      Kept mem m ib (Examined.resync m' msglen)
  | message {m' : HekaMessage} {mend : Nat}
      {hle : ib.scanpos < mend ∧ mend <= ib.readpos}
      (hheld : Held ib.buf ib.readpos m') :
      Kept mem m ib (Examined.message m' mend hle)

theorem examine_kept (mem : Memory) (m : HekaMessage) (ib : InputBuffer)
    (decode : Bool) : Kept mem m ib (examine mem m ib decode) := by
  fun_cases examine mem m ib decode with
  | case1 => exact Kept.wait
  | case2 => exact Kept.wait
  | case3 hshort hlen hend hheader hunit =>
      refine Kept.skipped ?_
      rw [examine, if_neg hshort]
      dsimp only
      rw [if_neg hheader, if_pos hunit]
  | case4 => exact Kept.wait
  | case5 hshort hlen hend hheader hunit msglen hne mend hmend hd m' hdecode =>
      have hheld : Held ib.buf ib.readpos _ :=
        held_of_decoded (congrArg Prod.fst hdecode) (by omega) (by omega)
      rw [hdecode] at hheld
      exact Kept.message hheld
  | case6 hshort hlen hend hheader hunit msglen hne mend hmend hd m' hdecode =>
      have hraw := lsbDecodeHekaMessage_raw mem (ib.buf + hend) msglen
      rw [hdecode] at hraw
      exact Kept.undecoded (congrArg ConstString.s hraw)
  | case7 hshort hlen hend hheader hunit msglen hne mend hmend =>
      exact Kept.message (held_raw (by omega) (by omega))
  | case8 hshort hlen hend hheader hunit msglen hzero =>
      refine Kept.skipped ?_
      rw [examine, if_neg hshort]
      dsimp only
      rw [if_neg hheader, if_neg hunit, if_neg hzero]

/-- A search that finds a message holds it.  One that finds none keeps the old
message or holds none. -/
theorem lsbFindHekaMessage_held (mem : Memory) (m : HekaMessage)
    (ib : InputBuffer) (decode : Bool) :
    let r := lsbFindHekaMessage mem m ib decode
    (r.found = true ∧ Held ib.buf ib.readpos r.m) ∨
      (r.found = false ∧ (r.m = m ∨ r.m.raw.s = none)) := by
  fun_induction lsbFindHekaMessage mem m ib decode with
  | case1 => exact Or.inr ⟨rfl, Or.inl rfl⟩
  | case2 => exact Or.inr ⟨rfl, Or.inl rfl⟩
  | case3 => exact Or.inr ⟨rfl, Or.inl rfl⟩
  | case4 m ib hne p hp hbounds hlt discarded start m' msglen hexamine ih =>
      have hkept := examine_kept mem m start decode
      rw [hexamine] at hkept
      rcases ih with ⟨hfound, hheld⟩ | ⟨hfound, hm | hraw⟩
      · exact Or.inl ⟨hfound, hheld⟩
      · refine Or.inr ⟨hfound, ?_⟩
        cases hkept with
        | skipped => exact Or.inl hm
        | undecoded hraw =>
            exact Or.inr ((congrArg (fun m => m.raw.s) hm).trans hraw)
      · exact Or.inr ⟨hfound, Or.inr hraw⟩
  | case5 m ib hne p hp hbounds hlt discarded start m' mend hmend hexamine =>
      have hkept := examine_kept mem m start decode
      rw [hexamine] at hkept
      cases hkept with
      | message hheld => exact Or.inl ⟨rfl, hheld⟩

theorem frameVerdict_undecided_framed {decode : Bool} {max : Nat}
    {xs : List UInt8}
    (h : frameVerdict decode max xs = Verdict.undecided) :
    frameVerdict false max xs = Verdict.undecided := by
  unfold frameVerdict at h ⊢
  dsimp only at h ⊢
  split
  · rfl
  rename_i hne
  rw [if_neg hne] at h
  split
  · rename_i hmark
    rw [if_pos hmark] at h
    cases h
  rename_i hmark
  rw [if_neg hmark] at h
  split
  · rfl
  rename_i hheader
  rw [if_neg hheader] at h
  split
  · rename_i hzero
    rw [if_pos hzero] at h
    cases h
  rename_i hzero
  rw [if_neg hzero] at h
  split
  · rfl
  rename_i hmessage
  rw [if_neg hmessage] at h
  split at h <;> cases h

/-- Where a separator was found behind others, the announced message stands
there, too. -/
theorem resumable_memchr {mem : Memory} {ib : InputBuffer} {p : Nat}
    (hp : mem.memchr 0x1e (ib.buf + ib.scanpos)
      (ib.readpos - ib.scanpos) = some p)
    (hle : p - ib.buf <= ib.readpos) (h : Util.Resumable mem ib) :
    Util.Resumable mem (ib.scanAt (p - ib.buf) ib.msglen hle) := by
  rcases Memory.memchr_some hp with ⟨hlow, hhigh, _, hbefore⟩
  intro hmsglen
  rcases h.marked hmsglen with ⟨hmarked, hlt⟩
  have hstart : p = ib.buf + ib.scanpos :=
    by_contra fun hp' => hbefore _ (Nat.le_refl _) (by omega) hmarked
  have hzero : p - ib.buf - ib.scanpos = 0 := by omega
  rw [unread_scanAt hle (by omega), hzero, List.drop_zero]
  exact h hmsglen

/-- What is sought stands behind the first separator. -/
theorem seek_found_memchr {decode : Bool} {mem : Memory} {ib : InputBuffer}
    {p : Nat} (hp : mem.memchr 0x1e (ib.buf + ib.scanpos)
      (ib.readpos - ib.scanpos) = some p) (hle : p - ib.buf <= ib.readpos) :
    ((frames decode ib.maxMessageSize).seek (ib.unread mem)).found =
      ((frames decode ib.maxMessageSize).seek
        ((ib.scanAt (p - ib.buf) ib.msglen hle).unread mem)).found := by
  have hbounds := Memory.memchr_some hp
  rw [seek_memchr_some hp, unread_scanAt hle (by omega)]
  rfl

/-- Where a frame is complete, the old message is replaced or cleared. -/
theorem lsbFindHekaMessage_framed (mem : Memory) (m : HekaMessage)
    (ib : InputBuffer) (decode : Bool) (hresumable : Util.Resumable mem ib)
    (hframe : ((frames false ib.maxMessageSize).seek
      (ib.unread mem)).found ≠ none) :
    (lsbFindHekaMessage mem m ib decode).found = true ∨
      (lsbFindHekaMessage mem m ib decode).m.raw.s = none := by
  fun_induction lsbFindHekaMessage mem m ib decode with
  | case1 m ib hempty =>
      have hunread : ib.unread mem = [] := List.eq_nil_of_length_eq_zero
        ((ib.length_unread mem).trans (by omega))
      rw [hunread] at hframe
      exact absurd rfl hframe
  | case2 m ib hne hp =>
      rw [seek_memchr_none hp] at hframe
      exact absurd rfl hframe
  | case3 m ib hne p hp hbounds hlt discarded start msglen hexamine =>
      rw [seek_found_memchr hp (Nat.le_of_lt hlt)] at hframe
      have hfirst : mem (start.buf + start.scanpos) = 0x1e := by
        change mem (ib.buf + (p - ib.buf)) = _
        rw [Nat.add_sub_cancel' (by omega)]
        exact hbounds.2.2.1
      have hexamines : Examines decode mem m start
          (examine mem m start decode) := examine_spec hfirst
        (resumable_memchr hp (Nat.le_of_lt hlt) hresumable)
      rw [hexamine] at hexamines
      cases hexamines with
      | wait hverdict =>
          have hundecided := (frames false ib.maxMessageSize).seek_undecided
            (frameVerdict_undecided_framed hverdict)
          exact absurd (congrArg Sought.found hundecided) hframe
  | case4 m ib hne p hp hbounds hlt discarded start m' msglen hexamine ih =>
      have hkept := examine_kept mem m start decode
      rw [hexamine] at hkept
      cases hkept with
      | skipped hframed =>
          rw [seek_found_memchr hp (Nat.le_of_lt hlt)] at hframe
          have hfirst : mem (start.buf + start.scanpos) = 0x1e := by
            change mem (ib.buf + (p - ib.buf)) = _
            rw [Nat.add_sub_cancel' (by omega)]
            exact hbounds.2.2.1
          have hexamines : Examines false mem m start
              (examine mem m start false) := examine_spec hfirst
            (resumable_memchr hp (Nat.le_of_lt hlt) hresumable)
          rw [hframed] at hexamines
          cases hexamines with
          | resync hverdict =>
              have hcons : start.unread mem = _ :: _ := unread_cons hlt 0
              change frameVerdict false ib.maxMessageSize _ = _ at hverdict
              change ((frames false ib.maxMessageSize).seek
                (start.unread mem)).found ≠ none at hframe
              rw [hcons] at hverdict hframe
              rw [(frames false ib.maxMessageSize).seek_reject hverdict]
                at hframe
              exact ih (resumable_zero rfl) hframe
      | undecoded hraw =>
          rcases lsbFindHekaMessage_held mem m' (start.scanAt
            (start.scanpos + 1) msglen hlt) decode with
            ⟨hfound, _⟩ | ⟨_, hm | hnone⟩
          · exact Or.inl hfound
          · exact Or.inr ((congrArg (fun m => m.raw.s) hm).trans hraw)
          · exact Or.inr hnone
  | case5 => exact Or.inl rfl

end Heka
end LuaSandbox
