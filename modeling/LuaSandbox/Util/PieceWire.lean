import LuaSandbox.Util.MessageContent
import LuaSandbox.Util.WireValues

/-!
# Pieces on the wire

Where the bytes of a piece stand in memory, they hold what the piece was made
of.
-/

namespace LuaSandbox
namespace Foundation
namespace Double

theorem foldr_bytes (n : Nat) : forall k,
    ((List.range k).map (fun i => UInt8.ofNat (n / 256 ^ i))).foldr
      (fun b m => b.toNat + 256 * m) 0 = n % 256 ^ k := by
  intro k
  induction k generalizing n with
  | zero =>
      rw [Nat.pow_zero, Nat.mod_one]
      rfl
  | succ k ih =>
      have hshift : (List.range k).map (fun i =>
          UInt8.ofNat (n / 256 ^ (i + 1))) =
            (List.range k).map (fun i => UInt8.ofNat (n / 256 / 256 ^ i)) := by
        apply List.map_congr_left
        intro i _
        rw [Nat.pow_succ', Nat.div_div_eq_div_mul]
      have hfirst : (UInt8.ofNat (n / 256 ^ 0)).toNat = n % 256 := by
        rw [Nat.pow_zero, Nat.div_one]
        exact UInt8.toNat_ofNat'
      rw [List.range_succ_eq_map, List.map_cons, List.map_map,
        List.foldr_cons]
      change _ + 256 * ((List.range k).map (fun i =>
        UInt8.ofNat (n / 256 ^ (i + 1)))).foldr _ 0 = _
      rw [hshift, ih (n / 256), hfirst, Nat.pow_succ', Nat.mod_mul]

/-- A pattern is read back from its bytes. -/
theorem ofBytes_toBytes (d : Double) : ofBytes d.toBytes = d := by
  have hlt := d.bits.toNat_lt
  unfold ofBytes toBytes
  rw [foldr_bytes, Nat.mod_eq_of_lt (by simpa using hlt)]
  rw [UInt64.ofNat_toNat]

end Double
end Foundation

namespace Util

open Foundation
open Memory (BytesAt bytesAt_append bytesAt_cons bytes_of_bytesAt)

section

variable {mem : Memory} {p : Nat}

/-!
## Keys, varints and lengths
-/

theorem readKey_of_bytesAt {tag wiretype : Nat} {xs : List UInt8}
    (htag : tag < 32) (hwiretype : wiretype < 8)
    (h : BytesAt mem p (lsbPbKey tag wiretype :: xs)) :
    lsbPbReadKey mem p = (p + 1, tag, wiretype) ∧
      BytesAt mem (p + 1) xs := by
  have hkey : forall (t : Fin 32) (w : Fin 8),
      (lsbPbKey t w).toNat >>> 3 = t ∧ (lsbPbKey t w).toNat &&& 7 = w := by
    decide
  rw [bytesAt_cons] at h
  refine ⟨?_, h.2⟩
  unfold lsbPbReadKey
  rw [h.1]
  have hparts := hkey ⟨tag, htag⟩ ⟨wiretype, hwiretype⟩
  rw [hparts.1, hparts.2]

theorem holdsVarint_of_bytesAt {w : Nat} (hw : w < 2 ^ 64)
    (h : BytesAt mem p (lsbPbOutputVarint w)) :
    HoldsVarint mem p w (p + (lsbPbOutputVarint w).length) :=
  lsbPbReadVarint_output hw h (Nat.le_refl _)

theorem holdsLength_of_bytesAt {n : Nat} {xs : List UInt8} (hn : n < 2 ^ 63)
    (h : BytesAt mem p (lsbPbOutputVarint n ++ xs)) :
    exists r, HoldsLength mem p n r ∧ BytesAt mem r xs ∧
      r = p + (lsbPbOutputVarint n).length := by
  rw [bytesAt_append] at h
  exact ⟨_, ⟨holdsVarint_of_bytesAt (by omega) h.1, hn⟩, h.2, rfl⟩

/-- A string record: its key, and the slice behind its length. -/
theorem string_of_bytesAt {tag : Nat} {s : List UInt8} (htag : tag < 32)
    (hlength : s.length < 2 ^ 63)
    (h : BytesAt mem p (Piece.string tag s).bytes) :
    lsbPbReadKey mem p = (p + 1, tag, lsbPbWtLength) ∧
      exists r, HoldsLength mem (p + 1) s.length r ∧
        mem.bytes r s.length = s ∧
        r + s.length = p + (Piece.string tag s).bytes.length := by
  change BytesAt mem p (lsbPbKey tag lsbPbWtLength ::
    (lsbPbOutputVarint s.length ++ s)) at h
  rcases readKey_of_bytesAt htag (by decide) h with ⟨hkey, hrest⟩
  rcases holdsLength_of_bytesAt hlength hrest with ⟨r, hlen, hs, hr⟩
  refine ⟨hkey, r, hlen, bytes_of_bytesAt hs, ?_⟩
  change r + s.length =
    p + (lsbPbKey tag lsbPbWtLength :: (lsbPbOutputVarint s.length ++ s)).length
  rw [List.length_cons, List.length_append]
  omega

theorem int_of_bytesAt {tag : Nat} {i : Int} (htag : tag < 32)
    (h : BytesAt mem p (intPiece tag i).bytes) :
    lsbPbReadKey mem p = (p + 1, tag, lsbPbWtVarint) ∧
      HoldsVarint mem (p + 1) (ofLongLong i)
        (p + (intPiece tag i).bytes.length) := by
  change BytesAt mem p (lsbPbKey tag lsbPbWtVarint ::
    lsbPbOutputVarint (ofLongLong i)) at h
  rcases readKey_of_bytesAt htag (by decide) h with ⟨hkey, hrest⟩
  refine ⟨hkey, ?_⟩
  have hvarint := holdsVarint_of_bytesAt (ofLongLong_lt i) hrest
  have hend : p + (intPiece tag i).bytes.length =
      p + 1 + (lsbPbOutputVarint (ofLongLong i)).length := by
    change p + (_ :: lsbPbOutputVarint (ofLongLong i)).length = _
    rw [List.length_cons]
    omega
  rw [hend]
  exact hvarint

theorem prefixed_of_bytesAt {c : Piece} (hlength : c.bytes.length < 2 ^ 63)
    (h : BytesAt mem p (Piece.prefixed c).bytes) :
    exists r, HoldsLength mem p c.bytes.length r ∧ BytesAt mem r c.bytes ∧
      r + c.bytes.length = p + (Piece.prefixed c).bytes.length := by
  rcases holdsLength_of_bytesAt hlength h with ⟨r, hlen, hc, hr⟩
  refine ⟨r, hlen, hc, ?_⟩
  change _ = p + (lsbPbOutputVarint c.bytes.length ++ c.bytes).length
  rw [List.length_append]
  omega

/-!
## Values
-/

theorem holdsVarints_of_bytesAt {ws : List Nat} : forall {w p : Nat},
    (forall v, v ∈ w :: ws -> v < 2 ^ 64) ->
    BytesAt mem p ((w :: ws).map lsbPbOutputVarint).flatten ->
    HoldsVarints mem (p + ((w :: ws).map lsbPbOutputVarint).flatten.length)
      p (w :: ws) := by
  induction ws with
  | nil =>
      intro w p hlt h
      rw [List.map_cons, List.map_nil, List.flatten_cons, List.flatten_nil,
        List.append_nil] at h ⊢
      exact HoldsVarints.last
        (holdsVarint_of_bytesAt (hlt w List.mem_cons_self) h)
  | cons v ws ih =>
      intro w p hlt h
      rw [List.map_cons, List.flatten_cons, bytesAt_append] at h
      have hrest := ih (fun x hx => hlt x (List.mem_cons_of_mem w hx)) h.2
      have hfirst := holdsVarint_of_bytesAt (hlt w List.mem_cons_self) h.1
      have hend : p + ((w :: v :: ws).map lsbPbOutputVarint).flatten.length =
          p + (lsbPbOutputVarint w).length +
            ((v :: ws).map lsbPbOutputVarint).flatten.length := by
        rw [List.map_cons, List.flatten_cons, List.length_append]
        omega
      rw [hend]
      exact HoldsVarints.more hfirst hrest.lt hrest

/-- Strings with a key each. -/
theorem holdsStrings_of_bytesAt {tag : Nat} (htag : StringTag tag)
    {xs : List (List UInt8)} : forall {x : List UInt8} {p : Nat},
    (((x :: xs).map (fun s => (Piece.string tag s).bytes)).flatten.length <
      2 ^ 63) ->
    BytesAt mem p
      ((x :: xs).map (fun s => (Piece.string tag s).bytes)).flatten ->
    exists ss, HoldsStrings mem (p + ((x :: xs).map (fun s =>
        (Piece.string tag s).bytes)).flatten.length) p ss ∧
      ss.map (fun s => s.bytes mem) = x :: xs := by
  have hsmall : tag < 32 := by
    rcases htag with rfl | rfl <;> decide
  have hpart : forall s : List UInt8,
      s.length <= (Piece.string tag s).bytes.length := by
    intro s
    change _ <= (_ :: (lsbPbOutputVarint s.length ++ s)).length
    rw [List.length_cons, List.length_append]
    omega
  induction xs with
  | nil =>
      intro x p hlength h
      rw [List.map_cons, List.map_nil, List.flatten_cons, List.flatten_nil,
        List.append_nil] at h hlength ⊢
      have hx := hpart x
      rcases string_of_bytesAt hsmall (by omega) h with
        ⟨hkey, r, hlen, hbytes, hend⟩
      exact ⟨_, HoldsStrings.last hkey htag hlen hend,
        congrArg (fun s => [s]) hbytes⟩
  | cons y xs ih =>
      intro x p hlength h
      rw [List.map_cons, List.flatten_cons, bytesAt_append] at h
      rw [List.map_cons, List.flatten_cons, List.length_append] at hlength ⊢
      have hx := hpart x
      rcases string_of_bytesAt hsmall (by omega) h.1 with
        ⟨hkey, r, hlen, hbytes, hend⟩
      rcases ih (by omega) h.2 with ⟨ss, hss, hcontents⟩
      rw [← Nat.add_assoc, ← hend]
      rw [← hend] at hss
      refine ⟨_, HoldsStrings.more hkey htag hlen hss.lt hss, ?_⟩
      rw [List.map_cons, hcontents]
      exact congrArg (fun s => s :: y :: xs) hbytes

theorem doublesAt_of_bytesAt {xs : List Double} : forall {p : Nat},
    BytesAt mem p (xs.map Double.toBytes).flatten ->
      doublesAt mem p xs.length = xs := by
  induction xs with
  | nil =>
      intro p _
      rfl
  | cons x xs ih =>
      intro p h
      rw [List.map_cons, List.flatten_cons, bytesAt_append,
        toBytes_length] at h
      have hfirst := bytes_of_bytesAt h.1
      rw [toBytes_length] at hfirst
      have hrest := ih h.2
      rw [List.length_cons, doublesAt_succ, hfirst, hrest,
        Double.ofBytes_toBytes]

theorem length_doubles (xs : List Double) :
    (xs.map Double.toBytes).flatten.length = 8 * xs.length := by
  induction xs with
  | nil => rfl
  | cons x xs ih =>
      rw [List.map_cons, List.flatten_cons, List.length_append,
        toBytes_length, ih, List.length_cons]
      omega

end

/-- Every field has a value. -/
def FieldValues.Nonempty : FieldValues -> Prop
  | FieldValues.strings _ xs => xs ≠ []
  | FieldValues.output _ => True
  | FieldValues.integers xs => xs ≠ []
  | FieldValues.doubles xs => xs ≠ []
  | FieldValues.bools xs => xs ≠ []

/-- The word of a truth value. -/
def boolWord (b : Bool) : Nat := if b then 1 else 0

/-- What the wire holds are the values of a field. -/
inductive Carries (mem : Memory) : WireValues -> FieldValues -> Prop where
  | strings {ss asBytes xs} : ss.map (fun s => s.bytes mem) = xs ->
      Carries mem (WireValues.strings ss) (FieldValues.strings asBytes xs)
  | output {ss text} : ss.map (fun s => s.bytes mem) = [text] ->
      Carries mem (WireValues.strings ss) (FieldValues.output text)
  | integers (xs : List Int) :
      Carries mem (WireValues.integers (xs.map ofLongLong))
        (FieldValues.integers xs)
  | doubles (xs : List Double) :
      Carries mem (WireValues.doubles xs) (FieldValues.doubles xs)
  | bools (xs : List Bool) :
      Carries mem (WireValues.bools (xs.map boolWord)) (FieldValues.bools xs)

section

variable {mem : Memory} {p : Nat}

theorem Carries.typed {vs : WireValues} {values : FieldValues}
    (h : Carries mem vs values) : vs.Typed values.valueType := by
  cases h with
  | @strings ss asBytes xs hss =>
      cases asBytes
      · exact Or.inl rfl
      · exact Or.inr rfl
  | output => exact Or.inr rfl
  | integers | doubles | bools => rfl

theorem bytes_varints (ws : List Nat) :
    (Piece.concat (ws.map Piece.varint)).bytes =
      (ws.map lsbPbOutputVarint).flatten := by
  rw [Piece.bytes_concat, List.flatMap_def, List.map_map]
  rfl

theorem flatten_singles (ws : List Nat) (h : forall w, w ∈ ws -> w < 128) :
    (ws.map lsbPbOutputVarint).flatten = ws.map UInt8.ofNat := by
  induction ws with
  | nil => rfl
  | cons w ws ih =>
      rw [List.map_cons, List.flatten_cons, List.map_cons,
        lsbPbOutputVarint_small (h w List.mem_cons_self),
        ih (fun v hv => h v (List.mem_cons_of_mem w hv))]
      rfl

theorem bytes_bools (xs : List Bool) :
    (Piece.concat (xs.map FieldValues.boolPiece)).bytes =
      ((xs.map boolWord).map lsbPbOutputVarint).flatten := by
  have hsmall : forall w, w ∈ xs.map boolWord -> w < 128 := by
    intro w hw
    rcases List.mem_map.mp hw with ⟨b, _, rfl⟩
    cases b <;> decide
  rw [flatten_singles _ hsmall, Piece.bytes_concat, List.flatMap_def,
    List.map_map, List.map_map]
  induction xs with
  | nil => rfl
  | cons b xs ih =>
      rw [List.map_cons, List.flatten_cons, List.map_cons, ih
        (fun w hw => hsmall w (List.mem_cons_of_mem _ hw))]
      cases b <;> rfl

/-- One word behind its own key. -/
theorem single_of_bytesAt {tag w : Nat} (htag : tag < 32) (hw : w < 2 ^ 64)
    (h : BytesAt mem p (lsbPbKey tag lsbPbWtVarint :: lsbPbOutputVarint w)) :
    HoldsWords mem (p + (lsbPbKey tag lsbPbWtVarint ::
      lsbPbOutputVarint w).length) tag p [w] := by
  rcases readKey_of_bytesAt htag (by decide) h with ⟨hkey, hrest⟩
  rw [List.length_cons, Nat.add_comm _ 1, ← Nat.add_assoc]
  exact HoldsWords.single hkey (holdsVarint_of_bytesAt hw hrest)

/-- Words behind one key and their length. -/
theorem packed_of_bytesAt {tag w n : Nat} {ws : List Nat} {xs : List UInt8}
    (htag : tag < 32) (hws : forall v, v ∈ w :: ws -> v < 2 ^ 64)
    (hxs : xs = ((w :: ws).map lsbPbOutputVarint).flatten)
    (hn : n = xs.length) (hlength : xs.length < 2 ^ 63)
    (h : BytesAt mem p (lsbPbKey tag lsbPbWtLength ::
      (lsbPbOutputVarint n ++ xs))) :
    HoldsWords mem (p + (lsbPbKey tag lsbPbWtLength ::
      (lsbPbOutputVarint n ++ xs)).length) tag p (w :: ws) := by
  rcases readKey_of_bytesAt htag (by decide) h with ⟨hkey, hrest⟩
  rcases holdsLength_of_bytesAt (by omega) hrest with ⟨r, hlen, hx, hr⟩
  have hend : p + (lsbPbKey tag lsbPbWtLength ::
      (lsbPbOutputVarint n ++ xs)).length = r + xs.length := by
    rw [List.length_cons, List.length_append]
    omega
  rw [hend]
  subst hn
  rw [hxs] at hx
  have hvarints := holdsVarints_of_bytesAt hws hx
  rw [← hxs] at hvarints
  exact HoldsWords.packed hkey hlen rfl hvarints

theorem integers_of_bytesAt {xs : List Int} (hne : xs ≠ [])
    (hlength : (FieldValues.integersPiece xs).bytes.length < 2 ^ 63)
    (h : BytesAt mem p (FieldValues.integersPiece xs).bytes) :
    HoldsWords mem (p + (FieldValues.integersPiece xs).bytes.length)
      lsbPbValueInteger p (xs.map ofLongLong) := by
  have hwords : forall v, v ∈ xs.map ofLongLong -> v < 2 ^ 64 := by
    intro v hv
    rcases List.mem_map.mp hv with ⟨x, _, rfl⟩
    exact ofLongLong_lt x
  match xs, hne with
  | [x], _ => exact single_of_bytesAt (by decide) (ofLongLong_lt x) h
  | x :: y :: xs, _ =>
      have hbytes : (Piece.concat ((x :: y :: xs).map
          (fun x => Piece.varint (ofLongLong x)))).bytes =
            (((x :: y :: xs).map ofLongLong).map lsbPbOutputVarint).flatten := by
        rw [← bytes_varints, List.map_map]
        rfl
      rw [FieldValues.integersPiece_many] at h hlength ⊢
      refine packed_of_bytesAt (by decide) hwords hbytes rfl ?_ h
      change (_ :: (lsbPbOutputVarint _ ++ _)).length < _ at hlength
      rw [List.length_cons, List.length_append] at hlength
      omega

theorem bools_of_bytesAt {xs : List Bool} (hne : xs ≠ [])
    (hlength : (FieldValues.boolsPiece xs).bytes.length < 2 ^ 63)
    (h : BytesAt mem p (FieldValues.boolsPiece xs).bytes) :
    HoldsWords mem (p + (FieldValues.boolsPiece xs).bytes.length)
      lsbPbValueBool p (xs.map boolWord) := by
  have hwords : forall v, v ∈ xs.map boolWord -> v < 2 ^ 64 := by
    intro v hv
    rcases List.mem_map.mp hv with ⟨b, _, rfl⟩
    cases b <;> decide
  match xs, hne with
  | [b], _ =>
      have hpiece : (FieldValues.boolsPiece [b]).bytes =
          lsbPbKey lsbPbValueBool lsbPbWtVarint ::
            lsbPbOutputVarint (boolWord b) := by
        cases b <;> rfl
      rw [hpiece] at h ⊢
      exact single_of_bytesAt (by decide) (by cases b <;> decide) h
  | x :: y :: xs, _ =>
      have hbytes := bytes_bools (x :: y :: xs)
      have hcount : (x :: y :: xs).length = (Piece.concat
          ((x :: y :: xs).map FieldValues.boolPiece)).bytes.length := by
        rw [Piece.bytes_concat, List.flatMap_def, List.map_map]
        generalize x :: y :: xs = l
        induction l with
        | nil => rfl
        | cons b l ih =>
            rw [List.map_cons, List.flatten_cons, List.length_append, ← ih,
              List.length_cons, Nat.add_comm]
            rfl
      rw [FieldValues.boolsPiece_many] at h hlength ⊢
      refine packed_of_bytesAt (by decide) hwords hbytes hcount ?_ h
      change (_ :: (_ ++ _)).length < _ at hlength
      rw [List.length_cons, List.length_append] at hlength
      omega

theorem doubles_of_bytesAt {xs : List Double} (hne : xs ≠ [])
    (hlength : (FieldValues.doublesPiece xs).bytes.length < 2 ^ 63)
    (h : BytesAt mem p (FieldValues.doublesPiece xs).bytes) :
    HoldsDoubles mem (p + (FieldValues.doublesPiece xs).bytes.length) p
      xs := by
  match xs, hne with
  | [x], _ =>
      change BytesAt mem p (lsbPbKey lsbPbValueDouble lsbPbWtFixed64 ::
        x.toBytes) at h
      rcases readKey_of_bytesAt (by decide) (by decide) h with ⟨hkey, hrest⟩
      have hx : doublesAt mem (p + 1) 1 = [x] := by
        change doublesAt mem (p + 1) [x].length = [x]
        apply doublesAt_of_bytesAt
        rw [List.map_cons, List.map_nil, List.flatten_cons, List.flatten_nil,
          List.append_nil]
        exact hrest
      have hend : p + 1 + 8 =
          p + (FieldValues.doublesPiece [x]).bytes.length := by
        change _ = p + (_ :: x.toBytes).length
        rw [List.length_cons, toBytes_length]
      rw [← hend, ← hx]
      exact HoldsDoubles.single hkey rfl
  | x :: y :: xs, _ =>
      rw [FieldValues.doublesPiece_many] at h hlength ⊢
      generalize hl : x :: y :: xs = l at h hlength ⊢
      have hpos : 0 < l.length := by
        rw [← hl]
        exact Nat.succ_pos _
      have hbytes : (Piece.concat (l.map
          (fun x => Piece.raw x.toBytes))).bytes =
            (l.map Double.toBytes).flatten := by
        rw [Piece.bytes_concat, List.flatMap_def, List.map_map]
        rfl
      have hcount := length_doubles l
      change BytesAt mem p (lsbPbKey lsbPbValueDouble lsbPbWtLength ::
        (lsbPbOutputVarint (8 * l.length) ++ (Piece.concat (l.map
          (fun x => Piece.raw x.toBytes))).bytes)) at h
      change (_ :: (lsbPbOutputVarint (8 * l.length) ++ (Piece.concat (l.map
          (fun x => Piece.raw x.toBytes))).bytes)).length < _ at hlength
      change HoldsDoubles mem (p + (_ :: (lsbPbOutputVarint (8 * l.length) ++
        (Piece.concat (l.map
          (fun x => Piece.raw x.toBytes))).bytes)).length) p l
      rw [hbytes] at h hlength ⊢
      rw [List.length_cons, List.length_append] at hlength ⊢
      rcases readKey_of_bytesAt (by decide) (by decide) h with ⟨hkey, hrest⟩
      rcases holdsLength_of_bytesAt (by omega) hrest with ⟨r, hlen, hx, hr⟩
      have hvalues := doublesAt_of_bytesAt hx
      have hpacked := HoldsDoubles.packed hkey hlen rfl hpos
      rw [hvalues] at hpacked
      have hend : p + ((lsbPbOutputVarint (8 * l.length)).length +
          (l.map Double.toBytes).flatten.length + 1) = r + 8 * l.length := by
        omega
      rw [hend]
      exact hpacked

theorem strings_of_bytesAt {asBytes : Bool} {xs : List (List UInt8)}
    (hne : xs ≠ [])
    (hlength : (FieldValues.strings asBytes xs).piece.bytes.length < 2 ^ 63)
    (h : BytesAt mem p (FieldValues.strings asBytes xs).piece.bytes) :
    exists ss, HoldsStrings mem
        (p + (FieldValues.strings asBytes xs).piece.bytes.length) p ss ∧
      ss.map (fun s => s.bytes mem) = xs := by
  have htag : StringTag (FieldValues.stringTag asBytes) := by
    cases asBytes
    · exact Or.inl rfl
    · exact Or.inr rfl
  have hpiece : (FieldValues.strings asBytes xs).piece.bytes =
      (xs.map (fun s => (Piece.string (FieldValues.stringTag asBytes)
        s).bytes)).flatten := by
    change (Piece.concat (xs.map (Piece.string _))).bytes = _
    rw [Piece.bytes_concat, List.flatMap_def, List.map_map]
    rfl
  rw [hpiece] at h hlength ⊢
  match xs, hne with
  | x :: xs, _ => exact holdsStrings_of_bytesAt htag hlength h

/-- The values of a field are held where the bytes of their piece stand. -/
theorem holdsValues_of_bytesAt {values : FieldValues} (hne : values.Nonempty)
    (hlength : values.piece.bytes.length < 2 ^ 63)
    (h : BytesAt mem p values.piece.bytes) :
    exists vs, HoldsValues mem (p + values.piece.bytes.length) p vs ∧
      Carries mem vs values := by
  cases values with
  | strings asBytes xs =>
      rcases strings_of_bytesAt hne hlength h with ⟨ss, hss, hcontents⟩
      exact ⟨WireValues.strings ss, hss, Carries.strings hcontents⟩
  | output text =>
      have hpiece : (FieldValues.output text).piece.bytes =
          (FieldValues.strings true [text]).piece.bytes := by
        change _ = (Piece.string _ text ++ Piece.empty).bytes
        rw [Piece.append_empty]
        rfl
      rw [hpiece] at h hlength ⊢
      rcases strings_of_bytesAt (List.cons_ne_nil _ _) hlength h with
        ⟨ss, hss, hcontents⟩
      exact ⟨WireValues.strings ss, hss, Carries.output hcontents⟩
  | integers xs =>
      exact ⟨WireValues.integers _, integers_of_bytesAt hne hlength h,
        Carries.integers xs⟩
  | doubles xs =>
      exact ⟨WireValues.doubles _, doubles_of_bytesAt hne hlength h,
        Carries.doubles xs⟩
  | bools xs =>
      exact ⟨WireValues.bools _, bools_of_bytesAt hne hlength h,
        Carries.bools xs⟩

end

end Util
end LuaSandbox
