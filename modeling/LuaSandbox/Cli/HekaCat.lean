import LuaSandbox.Foundation.ReverseScan
import LuaSandbox.Util.HekaMessage

/-!
# The last messages of a file

The search for the header from which the last messages of a file are read: the
file is read backwards in blocks, two of which are held at a time.
-/

namespace LuaSandbox
namespace Cli

open Foundation
open Util

inductive Stop where
  /-- a byte outside of a buffer is read -/
  | outOfBounds
  | outOfFuel
  deriving DecidableEq

/-- A byte of the block, or of the one that follows it in the file. -/
def byteAt (cur : List UInt8) (clen : Nat) (prev : List UInt8) (i : Nat) :
    Except Stop UInt8 :=
  match if i < clen then cur[i]? else prev[i - clen]? with
  | some b => Except.ok b
  | none => Except.error Stop.outOfBounds

/-- The test of one index. -/
def headerAt (cur : List UInt8) (clen : Nat) (prev : List UInt8) (i : Nat) :
    Except Stop Bool := do
  let c <- byteAt cur clen prev i
  if c = 0x1e then do
    -- behind the last index this is `prev[0]`
    let hlen <- byteAt cur clen prev (i + 1)
    let flag <- byteAt cur clen prev (i + 2)
    if flag ≠ 0x08 then
      pure false
    else do
      let flag <- byteAt cur clen prev (i + 2 + hlen.toNat)
      pure (flag = 0x1f)
  else
    pure false

/-- The loop from the last index down; the second value is the static `cnt`. -/
def findHeaderLoop (cur : List UInt8) (clen : Nat) (prev : List UInt8)
    (num : Nat) : Nat -> Nat -> Except Stop (Option Nat × Nat)
  | 0, cnt => pure (none, cnt)
  | i + 1, cnt => do
      let hit <- headerAt cur clen prev i
      if hit then
        if cnt + 1 = num then pure (some i, cnt + 1)
        else findHeaderLoop cur clen prev num i (cnt + 1)
      else
        findHeaderLoop cur clen prev num i cnt

def findHeader (cur : List UInt8) (clen : Nat) (prev : List UInt8)
    (num cnt : Nat) : Except Stop (Option Nat × Nat) :=
  findHeaderLoop cur clen prev num clen cnt

/-- The `while` loop; the result is the position in the file. -/
def moveToOffsetLoop (file : List UInt8) (num : Nat) :
    Nat -> List UInt8 -> List UInt8 -> Nat -> Nat -> Nat -> Except Stop Nat
  | 0, _, _, _, _, _ => Except.error Stop.outOfFuel
  | fuel + 1, cur, prev, pos, consume, cnt =>
      if consume = 0 then
        pure 0
      else do
        let cur := (file.drop pos).take consume ++ cur.drop consume
        let r <- findHeader cur consume prev num cnt
        match r.1 with
        | some loc => pure (pos + consume - (consume - loc))
        | none =>
            if consume <= pos then
              moveToOffsetLoop file num fuel prev cur (pos - consume) consume
                r.2
            else
              moveToOffsetLoop file num fuel prev cur 0 pos r.2

/-- `bufsiz` is the size of a block. -/
def moveToOffset (bufsiz : Nat) (file : List UInt8) (num fuel : Nat) :
    Except Stop Nat :=
  let consume := if bufsiz < file.length then bufsiz else file.length
  moveToOffsetLoop file num fuel (List.replicate bufsiz 0)
    (List.replicate bufsiz 0) (file.length - consume) consume 0

/-!
## The whole file in one piece
-/

/-- A header could start at this position. -/
def headerCandidate (file : List UInt8) (i : Nat) : Bool :=
  match file[i + 1]? with
  | some hlen =>
      file[i]? = some 0x1e && file[i + 2]? = some 0x08 &&
        file[i + 2 + hlen.toNat]? = some 0x1f
  | none => false

/-- The positions of the candidates. -/
def headerCandidates (file : List UInt8) : List Nat :=
  (List.range file.length).filter (headerCandidate file)

/-- Candidate number `num` from the end, or the start of the file. -/
def lastCandidate (file : List UInt8) (num : Nat) : Nat :=
  (headerCandidates file).reverse[num - 1]?.getD 0

/-- A byte of the file with zeros behind it. -/
def fileByte (file : List UInt8) (i : Nat) : UInt8 :=
  file[i]?.getD 0

theorem fileByte_eq_iff {file : List UInt8} {i : Nat} {b : UInt8}
    (hb : b ≠ 0) : fileByte file i = b <-> file[i]? = some b := by
  unfold fileByte
  cases file[i]? with
  | none => exact ⟨fun h => absurd h.symm hb, (fun h => by cases h)⟩
  | some c =>
      rw [Option.getD_some]
      exact ⟨fun h => congrArg some h, fun h => Option.some.inj h⟩

/-- The test reads as if zeros were behind the file. -/
theorem headerCandidate_iff {file : List UInt8} {i : Nat} :
    headerCandidate file i = true <->
      fileByte file i = 0x1e ∧ fileByte file (i + 2) = 0x08 ∧
        fileByte file (i + 2 + (fileByte file (i + 1)).toNat) = 0x1f := by
  rw [fileByte_eq_iff (by decide), fileByte_eq_iff (by decide),
    fileByte_eq_iff (by decide)]
  unfold headerCandidate fileByte
  cases hlen : file[i + 1]? with
  | some b => simp [and_assoc]
  | none =>
      -- nothing is behind the end either
      have hnone : file[i + 2]? = none :=
        List.getElem?_eq_none (Nat.le_succ_of_le
          (List.getElem?_eq_none_iff.mp hlen))
      rw [hnone]
      exact ⟨(fun h => by cases h), (fun h => by cases h.2.1)⟩

/-!
## Blocks
-/

/-- The first `n` bytes of a buffer are those of the file from `pos` on. -/
def Shows (file : List UInt8) (pos : Nat) (buf : List UInt8) (n : Nat) :
    Prop :=
  forall k, k < n -> buf[k]? = some (fileByte file (pos + k))

theorem shows_replicate {file : List UInt8} {pos : Nat} (n : Nat)
    (h : file.length <= pos) : Shows file pos (List.replicate n 0) n := by
  intro k hk
  have hnone : file[pos + k]? = none :=
    List.getElem?_eq_none (Nat.le_add_right_of_le h)
  rw [List.getElem?_replicate, if_pos hk, fileByte, hnone]
  rfl

/-- A block that is read over the start of a buffer. -/
theorem shows_read {file cur : List UInt8} {pos consume : Nat}
    (h : pos + consume <= file.length) :
    Shows file pos ((file.drop pos).take consume ++ cur.drop consume)
      consume := by
  intro k hk
  have hlength : k < ((file.drop pos).take consume).length := by
    rw [List.length_take, List.length_drop]
    omega
  have hlt : pos + k < file.length := by omega
  rw [List.getElem?_append_left hlength, List.getElem?_take_of_lt hk,
    List.getElem?_drop, fileByte, List.getElem?_eq_getElem hlt]
  rfl

theorem length_read {file cur : List UInt8} {pos consume : Nat}
    (h : pos + consume <= file.length) (hcur : consume <= cur.length) :
    ((file.drop pos).take consume ++ cur.drop consume).length =
      cur.length := by
  rw [List.length_append, List.length_take, List.length_drop,
    List.length_drop]
  omega

section

variable {file cur prev : List UInt8} {pos clen bufsiz : Nat}

theorem byteAt_eq (hcur : Shows file pos cur clen)
    (hprev : Shows file (pos + clen) prev bufsiz) {i : Nat}
    (hi : i < clen + bufsiz) :
    byteAt cur clen prev i = Except.ok (fileByte file (pos + i)) := by
  unfold byteAt
  by_cases hlt : i < clen
  · rw [if_pos hlt, hcur i hlt]
  · have hpos : pos + clen + (i - clen) = pos + i := by omega
    rw [if_neg hlt, hprev (i - clen) (by omega), hpos]

/-- The test of an index in a block is that of its position in the file. -/
theorem headerAt_eq (hcur : Shows file pos cur clen)
    (hprev : Shows file (pos + clen) prev bufsiz)
    (hbuf : lsbMaxHdrSize <= bufsiz) {i : Nat} (hi : i < clen) :
    headerAt cur clen prev i = Except.ok (headerCandidate file (pos + i)) := by
  have hread := fun j hj => byteAt_eq hcur hprev (i := j) hj
  have hsize : 258 <= bufsiz := hbuf
  have hhlen := (fileByte file (pos + (i + 1))).toNat_lt
  unfold headerAt
  rw [hread i (by omega), hread (i + 1) (by omega), hread (i + 2) (by omega)]
  change (if fileByte file (pos + i) = 0x1e then
    (if fileByte file (pos + (i + 2)) ≠ 0x08 then Except.ok false
      else (byteAt cur clen prev
        (i + 2 + (fileByte file (pos + (i + 1))).toNat)).bind
          (fun flag => Except.ok (decide (flag = 0x1f))))
    else Except.ok false) = _
  rw [hread (i + 2 + (fileByte file (pos + (i + 1))).toNat) (by omega)]
  have hcandidate := @headerCandidate_iff file (pos + i)
  by_cases hfirst : fileByte file (pos + i) = 0x1e
  · rw [if_pos hfirst]
    by_cases hflag : fileByte file (pos + (i + 2)) = 0x08
    · rw [if_neg (not_not.mpr hflag)]
      apply congrArg Except.ok
      have hend : pos + (i + 2 + (fileByte file (pos + (i + 1))).toNat) =
          pos + i + 2 + (fileByte file (pos + i + 1)).toNat := by
        rw [<- Nat.add_assoc, <- Nat.add_assoc, <- Nat.add_assoc]
      rw [Bool.eq_iff_iff, hcandidate, decide_eq_true_iff, hend]
      exact ⟨fun h => ⟨hfirst, hflag, h⟩, fun h => h.2.2⟩
    · rw [if_pos hflag, Bool.eq_false_iff.mpr
        (fun h => hflag (hcandidate.mp h).2.1)]
  · rw [if_neg hfirst, Bool.eq_false_iff.mpr
      (fun h => hfirst (hcandidate.mp h).1)]

/-- The search in a block is the scan of the file over its positions. -/
theorem findHeaderLoop_eq (hcur : Shows file pos cur clen)
    (hprev : Shows file (pos + clen) prev bufsiz)
    (hbuf : lsbMaxHdrSize <= bufsiz) (num : Nat) {n : Nat} (hn : n <= clen)
    (cnt : Nat) :
    findHeaderLoop cur clen prev num n cnt =
      Except.ok
        (seekDown (fun i => headerCandidate file (pos + i)) num n cnt) := by
  induction n generalizing cnt with
  | zero => rfl
  | succ n ih =>
      have hstep : findHeaderLoop cur clen prev num (n + 1) cnt =
          if headerCandidate file (pos + n) = true then
            if cnt + 1 = num then Except.ok (some n, cnt + 1)
            else findHeaderLoop cur clen prev num n (cnt + 1)
          else findHeaderLoop cur clen prev num n cnt := by
        rw [findHeaderLoop, headerAt_eq hcur hprev hbuf hn]
        rfl
      have hn' := Nat.le_of_succ_le hn
      rw [hstep, seekDown, ih hn' (cnt + 1), ih hn' cnt]
      split
      · split <;> rfl
      · rfl

end

/-!
## The file
-/

/-- What the loop keeps: a block of full size unless it is at the start of the
file, and behind it the bytes that follow it. -/
structure Positioned (file cur prev : List UInt8) (bufsiz pos consume : Nat) :
    Prop where
  inFile : pos + consume <= file.length
  cur_length : cur.length = bufsiz
  prev_length : prev.length = bufsiz
  consume_le : consume <= bufsiz
  full : 0 < pos -> consume = bufsiz
  follows : 0 < consume -> Shows file (pos + consume) prev bufsiz

section

variable {file cur prev : List UInt8} {bufsiz pos consume : Nat}

/-- The block before this one, of the same size. -/
theorem Positioned.back (h : Positioned file cur prev bufsiz pos consume)
    (hle : consume <= pos) (hpos : 0 < consume) :
    Positioned file prev
      ((file.drop pos).take consume ++ cur.drop consume) bufsiz
      (pos - consume) consume where
  inFile := by
    have hin := h.inFile
    omega
  cur_length := h.prev_length
  prev_length := by
    rw [length_read h.inFile (by rw [h.cur_length]; exact h.consume_le)]
    exact h.cur_length
  consume_le := h.consume_le
  full := fun _ => h.full (Nat.lt_of_lt_of_le hpos hle)
  follows := by
    intro _
    have hfull := h.full (Nat.lt_of_lt_of_le hpos hle)
    have hshows := @shows_read file cur pos consume h.inFile
    rw [Nat.sub_add_cancel hle]
    rwa [hfull] at hshows ⊢

/-- The rest at the start of the file. -/
theorem Positioned.start (h : Positioned file cur prev bufsiz pos consume)
    (hlt : pos < consume) :
    Positioned file prev
      ((file.drop pos).take consume ++ cur.drop consume) bufsiz 0 pos where
  inFile := by
    have hin := h.inFile
    omega
  cur_length := h.prev_length
  prev_length := by
    rw [length_read h.inFile (by rw [h.cur_length]; exact h.consume_le)]
    exact h.cur_length
  consume_le := Nat.le_trans (Nat.le_of_lt hlt) h.consume_le
  full := fun hpos => absurd hpos (Nat.lt_irrefl 0)
  follows := by
    intro hpos
    have hfull := h.full hpos
    have hshows := @shows_read file cur pos consume h.inFile
    rw [Nat.zero_add]
    rwa [hfull] at hshows ⊢

end

/-- From any block the loop ends where the scan of the file up to the end of
the block does. -/
theorem moveToOffsetLoop_eq {file : List UInt8} {bufsiz : Nat}
    (hbuf : lsbMaxHdrSize <= bufsiz) (num fuel : Nat) :
    forall (cur prev : List UInt8) (pos consume cnt : Nat),
      Positioned file cur prev bufsiz pos consume -> pos + consume < fuel ->
      moveToOffsetLoop file num fuel cur prev pos consume cnt =
        Except.ok ((seekDown (headerCandidate file) num (pos + consume)
          cnt).1.getD 0) := by
  have hsize : 258 <= bufsiz := hbuf
  induction fuel with
  | zero =>
      intro cur prev pos consume cnt h hfuel
      exact absurd hfuel (Nat.not_lt_zero _)
  | succ fuel ih =>
      intro cur prev pos consume cnt h hfuel
      rw [moveToOffsetLoop]
      by_cases hconsume : consume = 0
      · -- the start of the file was searched
        have hpos : pos = 0 := by
          by_contra hpos
          have hfull := h.full (Nat.pos_of_ne_zero hpos)
          omega
        rw [if_pos hconsume, hconsume, hpos]
        rfl
      · have hpositive := Nat.pos_of_ne_zero hconsume
        have hsearch := findHeaderLoop_eq (@shows_read file cur pos consume h.inFile)
          (h.follows hpositive) hbuf num (Nat.le_refl consume) cnt
        rw [if_neg hconsume]
        dsimp only
        rw [findHeader, hsearch]
        cases hblock :
            seekDown (fun i => headerCandidate file (pos + i)) num consume
              cnt with
        | mk found c =>
            cases found with
            | some loc =>
                have hloc := seekDown_lt hblock
                rw [seekDown_add_some hblock]
                change Except.ok (pos + consume - (consume - loc)) =
                  Except.ok (pos + loc)
                apply congrArg Except.ok
                omega
            | none =>
                rw [seekDown_add_none hblock]
                by_cases hle : consume <= pos
                · have hback := ih _ _ _ _ c
                    (h.back hle hpositive) (by omega)
                  rw [Nat.sub_add_cancel hle] at hback
                  change (if consume <= pos then _ else _) = _
                  rw [if_pos hle, hback]
                · have hstart := ih _ _ _ _ c
                    (h.start (Nat.lt_of_not_le hle)) (by omega)
                  rw [Nat.zero_add] at hstart
                  change (if consume <= pos then _ else _) = _
                  rw [if_neg hle, hstart]

/-- With blocks that can hold a header, the file is positioned at candidate
number `num` from the end, or at its start if there are fewer, whatever the
size of the blocks. -/
theorem moveToOffset_lastCandidate (file : List UInt8) (bufsiz num : Nat)
    (hbuf : lsbMaxHdrSize <= bufsiz) (hnum : 1 <= num) :
    forall fuel, file.length < fuel ->
      moveToOffset bufsiz file num fuel =
        Except.ok (lastCandidate file num) := by
  intro fuel hfuel
  have hstart : forall consume, consume <= bufsiz ->
      consume <= file.length -> (consume < bufsiz -> file.length = consume) ->
      moveToOffsetLoop file num fuel (List.replicate bufsiz 0)
          (List.replicate bufsiz 0) (file.length - consume) consume 0 =
        Except.ok (lastCandidate file num) := by
    intro consume hle hlength hshort
    have hend := Nat.sub_add_cancel hlength
    have hpositioned : Positioned file (List.replicate bufsiz 0)
        (List.replicate bufsiz 0) bufsiz (file.length - consume) consume :=
      { inFile := Nat.le_of_eq hend
        cur_length := List.length_replicate
        prev_length := List.length_replicate
        consume_le := hle
        full := by omega
        follows := fun _ => by
          rw [hend]
          exact shows_replicate bufsiz (Nat.le_refl _) }
    rw [moveToOffsetLoop_eq hbuf num fuel _ _ _ _ 0 hpositioned
      (by rw [hend]; exact hfuel), hend, seekDown_eq file.length hnum]
    rfl
  unfold moveToOffset
  by_cases hlt : bufsiz < file.length
  · rw [if_pos hlt]
    exact hstart bufsiz (Nat.le_refl _) (Nat.le_of_lt hlt)
      (fun h => absurd h (Nat.lt_irrefl _))
  · rw [if_neg hlt]
    exact hstart file.length (Nat.le_of_not_lt hlt) (Nat.le_refl _)
      (fun _ => rfl)

/-- Two headers behind a byte of something else. -/
theorem moveToOffset_lastCandidate_second :
    moveToOffset 8192 [0, 0x1e, 2, 8, 5, 0x1f, 0x1e, 2, 8, 6, 0x1f] 2 12 =
      Except.ok 1 :=
  moveToOffset_lastCandidate [0, 0x1e, 2, 8, 5, 0x1f, 0x1e, 2, 8, 6, 0x1f]
    8192 2 (by decide) (by decide) 12 (by decide)

end Cli
end LuaSandbox
