import LuaSandbox.Util.FrameScan

/-!
# Frames and undecided offsets

What the scanner finds, in terms of the bytes of frames and of the beginnings
of frames.
-/

namespace LuaSandbox
namespace Util

open Foundation

/-!
## Headers
-/

/-- A header that announces a message of `n` bytes: `0x08` and a varint. -/
structure Accepts (maxMessageSize : Nat) (header : List UInt8) (n : Nat) :
    Prop where
  tag : header.head? = some 0x08
  varint : exists q,
    lsbPbReadVarint (Memory.ofList header) 1 header.length = some (q, n)
  pos : 1 <= n
  le : n <= maxMessageSize
  length_le : header.length <= 255

/-- The bytes of a frame in front of its message. -/
def frameHead (header : List UInt8) : List UInt8 :=
  0x1e :: UInt8.ofNat header.length :: (header ++ [0x1f])

/-- A frame at the start of a stream. -/
def IsFrame (decode : Bool) (maxMessageSize : Nat)
    (xs frame : List UInt8) : Prop :=
  exists header message rest,
    Accepts maxMessageSize header message.length ∧
      (decode = true -> decodes message = true) ∧
      frame = frameHead header ++ message ∧ xs = frame ++ rest

/-- The beginning of what can be a frame once more of the stream arrives. -/
inductive IsUndecided (maxMessageSize : Nat) : List UInt8 -> Prop where
  | separator : IsUndecided maxMessageSize [0x1e]
  | header (h : UInt8) (rest : List UInt8) (hlt : rest.length < h.toNat + 1) :
      IsUndecided maxMessageSize (0x1e :: h :: rest)
  | message (header rest : List UInt8) (n : Nat)
      (haccepts : Accepts maxMessageSize header n) (hlt : rest.length < n) :
      IsUndecided maxMessageSize (frameHead header ++ rest)

theorem toLongLong_le_iff {v max : Nat} (hv : v < 2 ^ 64)
    (hmax : max < 2 ^ 63) :
    0 < toLongLong v ∧ toLongLong v <= max <-> 1 <= v ∧ v <= max := by
  unfold toLongLong
  rw [Nat.mod_eq_of_lt hv]
  split <;> omega

/-- The header of a frame, as `decodeHeader` sees it. -/
theorem decodeHeader_eq_iff {mem : Memory} {p len max n : Nat}
    (hmax : max < 2 ^ 63) (hlen : len <= 255) (hn : n ≠ 0) :
    decodeHeader mem p len max = n <-> Accepts max (mem.bytes p len) n := by
  have hlength : (mem.bytes p len).length = len :=
    Memory.length_bytes mem p len
  by_cases hlong : 2 <= len
  · have hvarint := lsbPbReadVarint_bothRead (i := 1) (e := len)
      (sameBytes_ofList mem p len) (Nat.le_refl len) (by omega)
    have hhead : (mem.bytes p len).head? = some 0x08 <-> mem p = 0x08 := by
      rw [List.head?_eq_getElem?, List.getElem?_eq_getElem (by omega),
        Memory.getElem_bytes, Option.some.injEq, Nat.add_zero]
    rw [Nat.zero_add, Nat.zero_add] at hvarint
    unfold decodeHeader
    by_cases htag : mem p = 0x08
    · rw [if_neg (not_not.mpr htag), if_pos (by omega)]
      generalize hr : lsbPbReadVarint mem (p + 1) (p + len) = r at hvarint ⊢
      generalize hr' : lsbPbReadVarint (Memory.ofList (mem.bytes p len)) 1
        len = r' at hvarint
      cases hvarint with
      | none =>
          constructor
          · intro hzero
            exact absurd hzero.symm hn
          · intro haccepts
            rcases haccepts.varint with ⟨q, hq⟩
            rw [hlength, hr'] at hq
            cases hq
      | @some j v v' hj hv =>
          cases hv
          have hbound := (lsbPbReadVarint_bounds hr (by omega)).2.2
          simp only [toLongLong_le_iff hbound hmax]
          constructor
          · intro hsome
            split at hsome
            · rename_i hrange
              cases hsome
              exact ⟨hhead.mpr htag, ⟨0 + j, by rw [hlength, hr']⟩, hrange.1,
                hrange.2, by omega⟩
            · exact absurd hsome.symm hn
          · intro haccepts
            rcases haccepts.varint with ⟨q, hq⟩
            rw [hlength, hr'] at hq
            cases hq
            exact if_pos ⟨haccepts.pos, haccepts.le⟩
    · rw [if_pos htag]
      constructor
      · intro hzero
        exact absurd hzero.symm hn
      · intro haccepts
        exact absurd (hhead.mp haccepts.tag) htag
  · -- there is no room for a varint
    have hzero : decodeHeader mem p len max = 0 := by
      unfold decodeHeader
      split
      · rfl
      · exact if_neg (by omega)
    constructor
    · intro h
      exact absurd (h.symm.trans hzero) hn
    · intro haccepts
      rcases haccepts.varint with ⟨q, hq⟩
      have htag := haccepts.tag
      rw [hlength] at hq
      have hone : len = 1 := by
        by_contra hne
        have hempty : len = 0 := by omega
        rw [hempty] at htag
        cases htag
      rw [hone] at hq
      exact absurd hq (by simp [lsbPbReadVarint, lsbMaxVarintBytes,
        readVarintLoop])

/-!
## The head of a frame
-/

theorem toNat_headerLength {header : List UInt8}
    (h : header.length <= 255) :
    (UInt8.ofNat header.length).toNat = header.length := by
  rw [UInt8.toNat_ofNat']
  omega

theorem frameHead_append (header rest : List UInt8) :
    frameHead header ++ rest =
      0x1e :: UInt8.ofNat header.length :: (header ++ 0x1f :: rest) := by
  simp [frameHead]

theorem headerSize_frameHead {header : List UInt8} (rest : List UInt8)
    (h : header.length <= 255) :
    headerSize (frameHead header ++ rest) = (frameHead header).length := by
  have hbyte : Memory.ofList (frameHead header ++ rest) 1 =
      UInt8.ofNat header.length := rfl
  rw [headerSize, hbyte, toNat_headerLength h]
  simp [frameHead]

/-- The announced length of a stream that starts with the head of a frame. -/
theorem announced_frameHead {max n : Nat} {header : List UInt8}
    (rest : List UInt8) (hmax : max < 2 ^ 63)
    (haccepts : Accepts max header n) :
    announced max (frameHead header ++ rest) = n := by
  have hbyte : (Memory.ofList (frameHead header ++ rest) 1).toNat =
      header.length := toNat_headerLength haccepts.length_le
  have hstream : Memory.BytesAt (Memory.ofList (frameHead header ++ rest)) 0
      (0x1e :: UInt8.ofNat header.length :: (header ++ 0x1f :: rest)) := by
    rw [← frameHead_append]
    exact Memory.bytesAt_ofList _
  simp only [Memory.bytesAt_cons, Memory.bytesAt_append, Nat.zero_add,
    Nat.reduceAdd] at hstream
  rcases hstream with ⟨hmark, _, hheader, hunit, _⟩
  have hcondition : ¬ ((frameHead header ++ rest).length <
        header.length + 3 ∨
      Memory.ofList (frameHead header ++ rest) 0 ≠ 0x1e ∨
      Memory.ofList (frameHead header ++ rest) (header.length + 2) ≠
        0x1f) := by
    rintro (hshort | hmark' | hunit')
    · rw [frameHead_append] at hshort
      simp only [List.length_cons, List.length_append] at hshort
      omega
    · exact hmark' hmark
    · rw [Nat.add_comm] at hunit'
      exact hunit' hunit
  have hbytes := Memory.bytes_of_bytesAt hheader
  have hdecode := (decodeHeader_eq_iff hmax haccepts.length_le
    (Nat.ne_of_gt haccepts.pos)).mpr (hbytes.symm ▸ haccepts)
  unfold announced
  dsimp only
  rw [hbyte, if_neg hcondition]
  exact hdecode

theorem frameHead_of_announced {max n : Nat} {xs : List UInt8}
    (hmax : max < 2 ^ 63) (hn : n ≠ 0) (h : announced max xs = n) :
    exists header rest, xs = frameHead header ++ rest ∧
      Accepts max header n := by
  unfold announced at h
  dsimp only at h
  split at h
  · exact absurd h.symm hn
  rename_i hcondition
  have hbound := (Memory.ofList xs 1).toNat_lt
  generalize hlen : (Memory.ofList xs 1).toNat = len at h hcondition hbound
  have hheader : ((Memory.ofList xs).bytes 2 len).length = len :=
    Memory.length_bytes _ _ _
  refine ⟨(Memory.ofList xs).bytes 2 len, xs.drop (len + 3), ?_,
    (decodeHeader_eq_iff hmax (by omega) hn).mp h⟩
  have hlength : UInt8.ofNat len = Memory.ofList xs 1 := by
    rw [← hlen, UInt8.ofNat_toNat]
  have hself : (Memory.ofList xs).bytes 0 xs.length = xs :=
    Memory.bytes_of_bytesAt (Memory.bytesAt_ofList xs)
  have hshort : ¬ xs.length < len + 3 := fun hlt => hcondition (Or.inl hlt)
  have hmark : Memory.ofList xs 0 = 0x1e :=
    by_contra fun hne => hcondition (Or.inr (Or.inl hne))
  have hunit : Memory.ofList xs (len + 2) = 0x1f :=
    by_contra fun hne => hcondition (Or.inr (Or.inr hne))
  have hsplit : xs.length = 1 + (1 + (len + (1 + (xs.length - (len + 3))))) :=
    by omega
  have hrest : xs.drop (len + 3) =
      (Memory.ofList xs).bytes (len + 3) (xs.length - (len + 3)) := by
    conv_lhs => rw [← hself]
    rw [Memory.drop_bytes, Nat.zero_add]
  rw [frameHead_append, hheader, hlength, hrest]
  conv_lhs => rw [← hself, hsplit]
  simp only [Memory.bytes_add, Memory.bytes_one, hmark, Nat.zero_add,
    List.cons_append, List.nil_append]
  have hat : 1 + 1 + len = len + 2 := by omega
  have hbehind : 1 + 1 + len + 1 = len + 3 := by omega
  rw [hbehind, hat, hunit]

/-!
## Verdicts
-/

section

variable {decode : Bool} {max : Nat} {xs : List UInt8}

/-- What the verdict on a complete head is. -/
theorem frameVerdict_frameHead {header rest : List UInt8} {n : Nat}
    (hmax : max < 2 ^ 63) (haccepts : Accepts max header n) :
    frameVerdict decode max (frameHead header ++ rest) =
      if rest.length < n then Verdict.undecided
      else if decode && !decodes (rest.take n) then Verdict.reject
      else Verdict.frame ((frameHead header).length + n) := by
  have hannounced := announced_frameHead rest hmax haccepts
  have hsize := headerSize_frameHead rest haccepts.length_le
  have hpos := haccepts.pos
  have hmark : ¬ Memory.ofList (frameHead header ++ rest) 0 ≠ 0x1e :=
    fun hne => hne rfl
  unfold frameVerdict
  dsimp only
  rw [hannounced, hsize, List.length_append, List.drop_left,
    if_neg (by simp [frameHead]), if_neg hmark, if_neg (by omega),
    if_neg (by omega)]
  simp only [Nat.add_lt_add_iff_left]

theorem frameVerdict_eq_frame_iff {n : Nat} (hmax : max < 2 ^ 63) :
    frameVerdict decode max xs = Verdict.frame n <->
      n <= xs.length ∧ IsFrame decode max xs (xs.take n) := by
  constructor
  · intro h
    rcases frameVerdict_frame h with ⟨_, hle, hne, _⟩
    rcases frameHead_of_announced hmax hne rfl with
      ⟨header, rest, hxs, haccepts⟩
    have hcut := h
    rw [hxs, frameVerdict_frameHead hmax haccepts] at hcut
    generalize announced max xs = k at haccepts hcut
    split at hcut
    · cases hcut
    rename_i hlong
    split at hcut
    · cases hcut
    rename_i hdecode
    cases hcut
    have hmessage : (rest.take k).length = k :=
      List.length_take_of_le (Nat.not_lt.mp hlong)
    refine ⟨hle, header, rest.take k, rest.drop k, hmessage.symm ▸ haccepts,
      fun hd => by simpa [hd] using hdecode, ?_, ?_⟩
    · rw [hxs, List.take_length_add_append]
    · rw [hxs, List.take_length_add_append, List.append_assoc,
        List.take_append_drop]
  · rintro ⟨hle, header, message, rest, haccepts, hdecodes, hframe, hxs⟩
    have hn : n = (frameHead header).length + message.length := by
      rw [← List.length_append, ← hframe, List.length_take_of_le hle]
    have hdecode : (decode && !decodes message) = false := by
      cases decode with
      | false => rfl
      | true => rw [hdecodes rfl, Bool.not_true, Bool.and_false]
    rw [hframe, List.append_assoc] at hxs
    rw [hxs, frameVerdict_frameHead hmax haccepts, List.take_left, hdecode,
      if_neg (by simp), if_neg (by simp), hn]

theorem frameVerdict_header {h : UInt8} {rest : List UInt8}
    (hlt : rest.length < h.toNat + 1) :
    frameVerdict decode max (0x1e :: h :: rest) = Verdict.undecided := by
  have hshort : (0x1e :: h :: rest).length <
      headerSize (0x1e :: h :: rest) := by
    change rest.length + 1 + 1 < h.toNat + 3
    omega
  have hmark : ¬ Memory.ofList (0x1e :: h :: rest) 0 ≠ 0x1e :=
    fun hne => hne rfl
  unfold frameVerdict
  dsimp only
  rw [if_neg (by simp), if_neg hmark, if_pos hshort]

theorem frameVerdict_eq_undecided_iff (hmax : max < 2 ^ 63) :
    frameVerdict decode max xs = Verdict.undecided <->
      xs = [] ∨ IsUndecided max xs := by
  constructor
  · intro h
    by_cases hne : announced max xs = 0
    · unfold frameVerdict at h
      dsimp only at h
      rw [hne] at h
      match xs with
      | [] => exact Or.inl rfl
      | a :: rest =>
          rw [if_neg (by simp)] at h
          split at h
          · cases h
          rename_i hmark
          have ha : a = 0x1e := not_not.mp hmark
          split at h
          · rename_i hshort
            right
            rw [ha]
            match rest with
            | [] => exact IsUndecided.separator
            | b :: rest =>
                have hlt : rest.length + 1 + 1 < b.toNat + 3 := hshort
                exact IsUndecided.header b rest (by omega)
          · rw [if_pos rfl] at h
            cases h
    · rcases frameHead_of_announced hmax hne rfl with
        ⟨header, rest, hxs, haccepts⟩
      generalize announced max xs = k at haccepts
      rw [hxs, frameVerdict_frameHead hmax haccepts] at h
      split at h
      · rename_i hshort
        right
        rw [hxs]
        exact IsUndecided.message header rest k haccepts hshort
      split at h
      · cases h
      · cases h
  · rintro (hempty | hundecided)
    · rw [hempty]
      rfl
    · cases hundecided with
      | separator => rfl
      | header h rest hlt => exact frameVerdict_header hlt
      | message header rest n haccepts hlt =>
          rw [frameVerdict_frameHead hmax haccepts, if_pos hlt]

end

/-!
## The search for a frame
-/

/-- No frame and no undecided offset stands in front of offset `i`. -/
def Clear (decode : Bool) (maxMessageSize : Nat) (xs : List UInt8)
    (i : Nat) : Prop :=
  forall j, j < i -> (forall f, ¬ IsFrame decode maxMessageSize (xs.drop j) f) ∧
    ¬ IsUndecided maxMessageSize (xs.drop j)

theorem isFrame_iff {decode : Bool} {max : Nat} {xs f : List UInt8}
    (hmax : max < 2 ^ 63) :
    IsFrame decode max xs f <->
      frameVerdict decode max xs = Verdict.frame f.length ∧
        f = xs.take f.length := by
  constructor
  · intro h
    have hframe := h
    rcases h with ⟨header, message, rest, _, _, _, hxs⟩
    have htake : f = xs.take f.length := by rw [hxs, List.take_left]
    refine ⟨(frameVerdict_eq_frame_iff hmax).mpr ⟨?_, htake ▸ hframe⟩, htake⟩
    rw [hxs, List.length_append]
    exact Nat.le_add_right _ _
  · rintro ⟨hverdict, htake⟩
    have hframe := ((frameVerdict_eq_frame_iff hmax).mp hverdict).2
    rw [← htake] at hframe
    exact hframe

theorem clear_iff {decode : Bool} {max : Nat} {xs : List UInt8} {i : Nat}
    (hmax : max < 2 ^ 63) (hi : i <= xs.length) :
    Clear decode max xs i <->
      forall j, j < i -> frameVerdict decode max (xs.drop j) =
        Verdict.reject := by
  refine forall_congr' (fun j => forall_congr' (fun hj => ?_))
  have hne : xs.drop j ≠ [] := by
    intro hempty
    have := congrArg List.length hempty
    rw [List.length_drop, List.length_nil] at this
    omega
  constructor
  · rintro ⟨hframe, hundecided⟩
    cases h : frameVerdict decode max (xs.drop j) with
    | reject => rfl
    | undecided =>
        rcases (frameVerdict_eq_undecided_iff hmax).mp h with hnil | hu
        · exact absurd hnil hne
        · exact absurd hu hundecided
    | frame n =>
        exact absurd ((frameVerdict_eq_frame_iff hmax).mp h).2 (hframe _)
  · intro h
    refine ⟨fun f hf => ?_, fun hu => ?_⟩
    · have hverdict := ((isFrame_iff hmax).mp hf).1
      rw [h] at hverdict
      cases hverdict
    · have hverdict : frameVerdict decode max (xs.drop j) =
          Verdict.undecided :=
        (frameVerdict_eq_undecided_iff hmax).mpr (Or.inr hu)
      rw [h] at hverdict
      cases hverdict

/-- What a search in a buffer does with the unread bytes. -/
structure Searches (decode : Bool) (mem : Memory) (ib : InputBuffer)
    (r : Finding) : Prop where
  /-- It succeeds exactly if there is a frame in front of which nothing is
  undecided. -/
  found_iff : r.found = true <->
    exists i f, IsFrame decode ib.maxMessageSize ((ib.unread mem).drop i) f ∧
      Clear decode ib.maxMessageSize (ib.unread mem) i
  frame : forall i f,
    IsFrame decode ib.maxMessageSize ((ib.unread mem).drop i) f ->
      Clear decode ib.maxMessageSize (ib.unread mem) i ->
      r.discardedBytes = i ∧
        r.m.contents mem = framed decode (payload f) ∧
        ib.unread mem = (ib.unread mem).take i ++ f ++ r.ib.unread mem
  undecided : forall i,
    IsUndecided ib.maxMessageSize ((ib.unread mem).drop i) ->
      Clear decode ib.maxMessageSize (ib.unread mem) i ->
      r.found = false ∧ r.discardedBytes = i ∧
        r.ib.scanpos = ib.scanpos + i ∧ r.ib.readpos = ib.readpos ∧
        ib.unread mem = (ib.unread mem).take i ++ r.ib.unread mem
  nothing : Clear decode ib.maxMessageSize (ib.unread mem)
      (ib.unread mem).length ->
    r.found = false ∧ r.discardedBytes = (ib.unread mem).length ∧
      r.ib.unread mem = []
  conserves : exists frame, (r.found = false -> frame = []) ∧
    ib.unread mem =
      (ib.unread mem).take r.discardedBytes ++ frame ++ r.ib.unread mem

theorem maxMessageSize_lt (ib : InputBuffer) :
    ib.maxMessageSize < 2 ^ 63 := by
  have hle := ib.maxsize_le
  have hlt := ib.hdr_lt
  unfold InputBuffer.maxMessageSize lsbMaxHdrSize lsbHdrFrameSize at *
  omega

theorem Scans.searches {decode : Bool} {mem : Memory} {ib : InputBuffer}
    {r : Finding} (h : Scans decode mem ib r
      ((frames decode ib.maxMessageSize).seek (ib.unread mem))) :
    Searches decode mem ib r := by
  have hmax := maxMessageSize_lt ib
  have hlength := ib.length_unread mem
  have hpast : forall {i : Nat} {n : Nat},
      frameVerdict decode ib.maxMessageSize ((ib.unread mem).drop i) =
        Verdict.frame n -> i <= (ib.unread mem).length := by
    intro i n hverdict
    by_contra hlong
    rw [List.drop_eq_nil_of_le (by omega)] at hverdict
    cases hverdict
  have hframe : forall i f,
      IsFrame decode ib.maxMessageSize ((ib.unread mem).drop i) f ->
        Clear decode ib.maxMessageSize (ib.unread mem) i ->
        (frames decode ib.maxMessageSize).seek (ib.unread mem) =
          ⟨i, some f, ((ib.unread mem).drop i).drop f.length⟩ := by
    intro i f hf hclear
    rcases (isFrame_iff hmax).mp hf with ⟨hverdict, htake⟩
    have hle := hpast hverdict
    rw [(frames decode ib.maxMessageSize).seek_drop hle
      ((clear_iff hmax hle).mp hclear),
      (frames decode ib.maxMessageSize).seek_frame hverdict, ← htake]
    rfl
  refine ⟨⟨fun hfound => ?_, ?_⟩, ?_, ?_, ?_, ?_⟩
  · rw [h.found] at hfound
    rcases Option.isSome_iff_exists.mp hfound with ⟨f, hf⟩
    have hle := (frames decode ib.maxMessageSize).seek_skipped_le
      (ib.unread mem)
    refine ⟨_, f, (isFrame_iff hmax).mpr
      ((frames decode ib.maxMessageSize).seek_found hf), ?_⟩
    exact (clear_iff hmax hle).mpr (fun j hj =>
      (frames decode ib.maxMessageSize).seek_rejects hj)
  · rintro ⟨i, f, hf, hclear⟩
    rw [h.found, hframe i f hf hclear]
    rfl
  · intro i f hf hclear
    have hseek := hframe i f hf hclear
    have hmessage := h.message f (by rw [hseek])
    have hconserves := (frames decode ib.maxMessageSize).seek_conserves
      (ib.unread mem)
    rw [hseek] at hconserves
    refine ⟨h.discarded.trans (by rw [hseek]), hmessage, ?_⟩
    rw [h.unread, hseek]
    exact hconserves
  · intro i hu hclear
    have hverdict : frameVerdict decode ib.maxMessageSize
        ((ib.unread mem).drop i) = Verdict.undecided :=
      (frameVerdict_eq_undecided_iff hmax).mpr (Or.inr hu)
    have hlt : i < (ib.unread mem).length := by
      by_contra hlong
      rw [List.drop_eq_nil_of_le (by omega)] at hu
      cases hu
    have hseek : (frames decode ib.maxMessageSize).seek (ib.unread mem) =
        ⟨i, none, (ib.unread mem).drop i⟩ := by
      rw [(frames decode ib.maxMessageSize).seek_drop (Nat.le_of_lt hlt)
        ((clear_iff hmax (Nat.le_of_lt hlt)).mp hclear),
        (frames decode ib.maxMessageSize).seek_undecided hverdict]
      rfl
    have hunread := h.unread
    have hreadpos := h.readpos
    rw [hseek] at hunread hreadpos
    have hrest : (ib.unread mem).drop i ≠ [] := by
      intro hnil
      have := congrArg List.length hnil
      rw [List.length_drop, List.length_nil] at this
      omega
    have hsize := congrArg List.length hunread
    have hread := hreadpos hrest
    have hscan := r.ib.scanpos_le
    rw [r.ib.length_unread, List.length_drop] at hsize
    refine ⟨h.found.trans (by rw [hseek]; rfl),
      h.discarded.trans (by rw [hseek]), by omega, hread, ?_⟩
    rw [hunread, List.take_append_drop]
  · intro hclear
    have hseek : (frames decode ib.maxMessageSize).seek (ib.unread mem) =
        ⟨(ib.unread mem).length, none, []⟩ := by
      rw [(frames decode ib.maxMessageSize).seek_drop (Nat.le_refl _)
        ((clear_iff hmax (Nat.le_refl _)).mp hclear), List.drop_length]
      rfl
    exact ⟨h.found.trans (by rw [hseek]; rfl),
      h.discarded.trans (by rw [hseek]), h.unread.trans (by rw [hseek])⟩
  · refine ⟨((frames decode ib.maxMessageSize).seek
      (ib.unread mem)).found.getD [], fun hfound => ?_, ?_⟩
    · have hnone : ((frames decode ib.maxMessageSize).seek
          (ib.unread mem)).found = none := by
        rw [h.found] at hfound
        exact Option.not_isSome_iff_eq_none.mp (by rw [hfound]; nofun)
      rw [hnone]
      rfl
    · rw [h.discarded, h.unread]
      exact (frames decode ib.maxMessageSize).seek_conserves (ib.unread mem)

/--
A search without a pending message returns the leftmost frame if nothing in
front of it is undecided, otherwise stops at the leftmost undecided offset, and
discards everything if there is neither.
-/
theorem lsbFindHekaMessage_searches (mem : Memory) (m : HekaMessage)
    (ib : InputBuffer) (decode : Bool) (h : ib.msglen = 0) :
    Searches decode mem ib (lsbFindHekaMessage mem m ib decode) :=
  (lsbFindHekaMessage_scans mem m ib decode (resumable_zero h)).searches

/-- A buffer at address 0 that holds `n` bytes to scan. -/
def filledBuffer (n : Nat) (h : n <= 8192) : InputBuffer where
  buf := 0
  size := 8192
  maxsize := 8192
  readpos := n
  scanpos := 0
  msglen := 0
  scanpos_le := Nat.zero_le n
  readpos_le := h
  size_le := Nat.le_refl _
  hdr_lt := by decide
  maxsize_le := by decide

theorem lsbFindHekaMessage_searches_sample :
    Searches true (Memory.ofList [0x61, 0x1e, 0x02, 0x08])
      (filledBuffer 4 (by decide))
      (lsbFindHekaMessage (Memory.ofList [0x61, 0x1e, 0x02, 0x08])
        lsbClearHekaMessage (filledBuffer 4 (by decide)) true) :=
  lsbFindHekaMessage_searches _ _ _ _ rfl

end Util
end LuaSandbox
