import LuaSandbox.Util.Pattern
import LuaSandbox.Util.PatternAccepts

/-!
# The text of patterns

What the matcher reads in the text of a well formed pattern.
-/

namespace LuaSandbox
namespace Util

open Foundation

/-!
## Classes
-/

theorem matchClass_class (k : CharClass) (c : UInt8) :
    matchClass c k.letter = true <-> k.Contains c := by
  cases k with
  | zero =>
      change (c == 0) = true <-> c = 0
      exact beq_iff_eq
  | letters => exact Iff.rfl
  | control => exact Iff.rfl
  | digits => exact Iff.rfl
  | lowerCase => exact Iff.rfl
  | punctuation => exact Iff.rfl
  | spaces => exact Iff.rfl
  | upperCase => exact Iff.rfl
  | alphanumeric => exact Iff.rfl
  | hexadecimal => exact Iff.rfl

theorem matchClass_complement (k : CharClass) (c : UInt8) :
    matchClass c (k.letter - 0x20) = !matchClass c k.letter := by
  cases k <;> rfl

theorem namedClass_none {cl : UInt8} (h : forall k : CharClass, cl ≠ k.letter)
    (c : UInt8) : namedClass cl c = none := by
  unfold namedClass
  split
  · exact absurd rfl (h CharClass.letters)
  · exact absurd rfl (h CharClass.control)
  · exact absurd rfl (h CharClass.digits)
  · exact absurd rfl (h CharClass.lowerCase)
  · exact absurd rfl (h CharClass.punctuation)
  · exact absurd rfl (h CharClass.spaces)
  · exact absurd rfl (h CharClass.upperCase)
  · exact absurd rfl (h CharClass.alphanumeric)
  · exact absurd rfl (h CharClass.hexadecimal)
  · exact absurd rfl (h CharClass.zero)
  · rfl

theorem matchClass_letter {e : Escape} (h : e.WellFormed) (c : UInt8) :
    matchClass c e.letter = true <-> e.Contains c := by
  cases e with
  | cls k => exact matchClass_class k c
  | complement k =>
      change matchClass c (k.letter - 0x20) = true <-> ¬ k.Contains c
      rw [matchClass_complement, ← matchClass_class, Bool.not_eq_true',
        Bool.not_eq_true]
  | char x =>
      change matchClass c x = true <-> c = x
      unfold matchClass
      rw [namedClass_none h.2]
      exact beq_iff_eq.trans eq_comm

/-!
## Bracket sets
-/

/-- The loop of `classend` at its test for the closing bracket. -/
def closing (t : List UInt8) : Option (List UInt8) :=
  match t with
  | 0x5d :: rest => some rest
  | t => classendBracket t

theorem closing_of_head {t : List UInt8} (h : t.head? ≠ some 0x5d) :
    closing t = classendBracket t := by
  unfold closing
  split
  · exact absurd rfl h
  · rfl

theorem classendBracket_char {c : UInt8} {t : List UInt8} (hc : c ≠ 0x25) :
    classendBracket (c :: t) = closing t := by
  match t with
  | [] => rw [classendBracket, closing] <;> simp
  | x :: t =>
      by_cases hx : x = 0x5d
      · subst hx
        rw [classendBracket, closing] <;> simp_all
      · rw [closing_of_head (by simpa using hx), classendBracket] <;> simp_all

theorem classendBracket_escape {x : UInt8} {t : List UInt8} :
    classendBracket (0x25 :: x :: t) = closing t := by
  match t with
  | [] => rfl
  | y :: t =>
      by_cases hy : y = 0x5d
      · subst hy
        rfl
      · rw [closing_of_head (by simpa using hy), classendBracket]
        rintro _ heq
        exact hy (List.cons.inj heq).1

theorem closing_cons {c : UInt8} {t : List UInt8} (h : c ≠ 0x5d) :
    closing (c :: t) = classendBracket (c :: t) :=
  closing_of_head (by simpa using h)

/-- The loop passes a member whatever its first byte is. -/
theorem classendBracket_member {m : SetMember} {t : List UInt8}
    (h : m.WellFormed) : classendBracket (m.text ++ t) = closing t := by
  cases m with
  | char c => exact classendBracket_char h.2
  | range low high =>
      rcases h with ⟨⟨_, hlow⟩, _, hhigh, hbracket⟩
      change classendBracket (low :: 0x2d :: high :: t) = closing t
      rw [classendBracket_char hlow, closing_cons (by decide),
        classendBracket_char (by decide), closing_cons hbracket,
        classendBracket_char hhigh]
  | escape e => exact classendBracket_escape

theorem membersText_cons (m : SetMember) (rest : List SetMember) :
    membersText (m :: rest) = m.text ++ membersText rest := by
  rw [membersText, List.flatMap_cons, membersText]

theorem text_ne_nil (m : SetMember) : m.text ≠ [] := by
  cases m <;> simp [SetMember.text]

/-- The bracket that the loop finds is the one behind the members. -/
theorem closing_members {members : List SetMember} :
    MembersWellFormed members ->
    (membersText members).head? ≠ some 0x5d ->
    forall t, closing (membersText members ++ 0x5d :: t) = some t := by
  induction members with
  | nil =>
      intro _ _ t
      rfl
  | cons m rest ih =>
      rintro ⟨hm, -, hhead, hrest⟩ hbracket t
      rw [membersText_cons] at hbracket ⊢
      rw [closing_of_head, List.append_assoc, classendBracket_member hm]
      · exact ih hrest hhead t
      · rwa [List.append_assoc, List.head?_append_of_ne_nil _ (text_ne_nil m),
          ← List.head?_append_of_ne_nil _ (text_ne_nil m)]

theorem classendBracket_members {members : List SetMember}
    (hmembers : MembersWellFormed members) (hne : members ≠ [])
    (t : List UInt8) :
    classendBracket (membersText members ++ 0x5d :: t) = some t := by
  cases members with
  | nil => exact absurd rfl hne
  | cons m rest =>
      rcases hmembers with ⟨hm, -, hhead, hrest⟩
      rw [membersText_cons, List.append_assoc, classendBracket_member hm]
      exact closing_members hrest hhead t

/-- A class of characters is as long as its text. -/
theorem classend_text {x : Single} (h : x.WellFormed) (t : List UInt8) :
    classend (x.text ++ t) = some t := by
  cases x with
  | char c =>
      rcases h with ⟨-, hpercent, hset, -⟩
      change classend (c :: t) = some t
      rw [classend] <;> simp_all
  | any => rfl
  | escape e => rfl
  | set members =>
      rcases h with ⟨hne, hmembers, hcaret⟩
      change classend (0x5b :: ((membersText members ++ [0x5d]) ++ t)) = some t
      rw [List.append_assoc, classend]
      · exact classendBracket_members hmembers hne t
      · intro rest heq
        apply hcaret
        cases members with
        | nil => exact absurd rfl hne
        | cons m members =>
            rw [membersText_cons, List.head?_append_of_ne_nil _ (text_ne_nil m)]
            rw [membersText_cons, List.append_assoc] at heq
            rw [← List.head?_append_of_ne_nil m.text (text_ne_nil m), heq]
            rfl
  | complement members =>
      rcases h with ⟨hne, hmembers⟩
      change classend (0x5b :: 0x5e :: ((membersText members ++ [0x5d]) ++ t)) =
        some t
      rw [List.append_assoc, classend]
      exact classendBracket_members hmembers hne t

theorem bracketMember_cons {c : UInt8} {sig : Bool} {m : SetMember}
    {rest : List SetMember} (h : MembersWellFormed (m :: rest)) :
    bracketMember c sig (membersText (m :: rest)) = sig <->
      m.Contains c ∨ bracketMember c sig (membersText rest) = sig := by
  rcases h with ⟨hm, hrange, -, -⟩
  rw [membersText_cons]
  cases m with
  | char x =>
      have hstep : bracketMember c sig (x :: membersText rest) =
          if x == c then sig else bracketMember c sig (membersText rest) := by
        rw [bracketMember]
        · rintro heq _
          exact hm.2 heq
        · rintro _ _ heq _
          exact hm.2 heq
        · intro y more heq
          exact hrange x y more rfl heq
      change bracketMember c sig (x :: membersText rest) = sig <-> _
      rw [hstep]
      split
      · rename_i heq
        exact iff_of_true rfl (Or.inl (beq_iff_eq.mp heq).symm)
      · rename_i hne
        exact (or_iff_right (fun heq => hne (beq_iff_eq.mpr heq.symm))).symm
  | range low high =>
      have hstep : bracketMember c sig (low :: 0x2d :: high :: membersText rest) =
          if low <= c && c <= high then sig
          else bracketMember c sig (membersText rest) := by
        rw [bracketMember]
        exact hm.1.2
      change bracketMember c sig (low :: 0x2d :: high :: membersText rest) = sig <->
        (low <= c ∧ c <= high) ∨ _
      rw [hstep]
      split
      · rename_i hin
        rw [Bool.and_eq_true, decide_eq_true_iff, decide_eq_true_iff] at hin
        exact iff_of_true rfl (Or.inl hin)
      · rename_i hout
        rw [Bool.and_eq_true, decide_eq_true_iff, decide_eq_true_iff] at hout
        exact (or_iff_right hout).symm
  | escape e =>
      change bracketMember c sig (0x25 :: e.letter :: membersText rest) = sig <->
        e.Contains c ∨ _
      rw [bracketMember, ← matchClass_letter hm]
      split
      · rename_i hin
        exact iff_of_true rfl (Or.inl hin)
      · rename_i hout
        exact (or_iff_right hout).symm

theorem bracketMember_members {c : UInt8} {sig : Bool}
    {members : List SetMember} : MembersWellFormed members ->
      (bracketMember c sig (membersText members) = sig <->
        exists m, m ∈ members ∧ m.Contains c) := by
  induction members with
  | nil =>
      intro _
      apply iff_of_false
      · exact Bool.not_ne_self sig
      · rintro ⟨m, hm, -⟩
        cases hm
  | cons m rest ih =>
      intro h
      rw [bracketMember_cons h, ih h.2.2.2]
      simp

theorem matchbracketclass_text {c : UInt8} {a t : List UInt8} :
    matchbracketclass c (0x5b :: (a ++ [0x5d] ++ t)) t =
      match a with
      | 0x5e :: members => bracketMember c false members
      | members => bracketMember c true members := by
  have htake : ((0x5b :: (a ++ [0x5d] ++ t)).take
      ((0x5b :: (a ++ [0x5d] ++ t)).length - t.length - 1)).drop 1 = a := by
    have hlength : (0x5b :: (a ++ [0x5d] ++ t)).length - t.length - 1 =
        (0x5b :: a).length := by
      simp only [List.length_cons, List.length_append, List.length_nil]
      omega
    rw [hlength, List.append_assoc, ← List.cons_append, List.take_left]
    rfl
  exact congrArg (fun (set : List UInt8) => match set with
    | 0x5e :: members => bracketMember c false members
    | members => bracketMember c true members) htake

/-- A single character matches the text of a class that it belongs to. -/
theorem singlematch_text {x : Single} (h : x.WellFormed) (c : UInt8)
    (t : List UInt8) :
    singlematch c (x.text ++ t) t = true <-> x.Contains c := by
  cases x with
  | char y =>
      rcases h with ⟨-, hpercent, hset, hdot⟩
      change singlematch c (y :: t) t = true <-> c = y
      rw [singlematch, beq_iff_eq, eq_comm] <;> simp_all
  | any => exact iff_of_true rfl trivial
  | escape e => exact matchClass_letter h.1 c
  | set members =>
      rcases h with ⟨-, hmembers, hcaret⟩
      change matchbracketclass c (0x5b :: (membersText members ++ [0x5d] ++ t)) t =
        true <-> _
      rw [matchbracketclass_text]
      split
      · rename_i heq
        rw [heq] at hcaret
        exact absurd rfl hcaret
      · exact bracketMember_members hmembers
  | complement members =>
      rcases h with ⟨-, hmembers⟩
      change matchbracketclass c
        (0x5b :: ((0x5e :: membersText members) ++ [0x5d] ++ t)) t = true <->
          ¬ exists m, m ∈ members ∧ m.Contains c
      rw [matchbracketclass_text, ← bracketMember_members hmembers,
        Bool.not_eq_false]
      exact Iff.rfl

/-!
## Items
-/

theorem isItem_text {x : Single} (h : x.WellFormed) {t : List UInt8}
    (hend : x = Single.char 0x24 -> t ≠ []) : IsItem (x.text ++ t) := by
  cases x with
  | char c =>
      rcases h with ⟨-, hpercent, -, -⟩
      change IsItem (c :: t)
      unfold IsItem
      split <;> simp_all
  | any =>
      change IsItem (0x2e :: t)
      unfold IsItem
      split <;> simp_all
  | escape e =>
      rcases h with ⟨-, hb, hf⟩
      change IsItem (0x25 :: e.letter :: t)
      unfold IsItem
      split <;> simp_all
  | set members => exact trivial
  | complement members => exact trivial

/-- The quantifier is read behind the class. -/
theorem allows_text {q : Quantifier} {t : List UInt8} {i : Nat}
    (h : q = Quantifier.once -> forall c, t.head? = some c ->
      isQuantifier c = false) :
    Allows (q.text ++ t) i <-> q.Repetitions i := by
  cases q with
  | once =>
      have h := h rfl
      change Allows t i <-> i = 1
      unfold Allows
      split <;> simp_all [isQuantifier]
  | optional => exact Iff.rfl
  | star => exact Iff.rfl
  | plus => exact Iff.rfl
  | lazy => exact Iff.rfl

theorem behindQuantifier_text {q : Quantifier} {t : List UInt8}
    (h : q = Quantifier.once -> forall c, t.head? = some c ->
      isQuantifier c = false) :
    behindQuantifier (q.text ++ t) = t := by
  cases q with
  | once =>
      have h := h rfl
      change behindQuantifier t = t
      unfold behindQuantifier
      split <;> simp_all [isQuantifier]
  | optional => rfl
  | star => rfl
  | plus => rfl
  | lazy => rfl

theorem repeats_text {mem : Memory} {srcEnd s i : Nat} {x : Single}
    (h : x.WellFormed) (t : List UInt8) (hs : s <= srcEnd) :
    Repeats mem srcEnd (x.text ++ t) t s i <->
      s + i <= srcEnd ∧ forall c, c ∈ mem.bytes s i -> x.Contains c := by
  constructor
  · intro hrepeats
    refine ⟨hrepeats.le hs, ?_⟩
    intro c hc
    rcases List.mem_map.mp hc with ⟨j, hj, rfl⟩
    exact (singlematch_text h _ t).mp (hrepeats j (List.mem_range.mp hj)).2
  · rintro ⟨hle, hall⟩ j hj
    refine ⟨by omega, (singlematch_text h _ t).mpr (hall _ ?_)⟩
    exact List.mem_map.mpr ⟨j, List.mem_range.mpr hj, rfl⟩

/-- The next bytes of the slice, up to its end, are `w`. -/
def Takes (mem : Memory) (srcEnd s : Nat) (w : List UInt8) : Prop :=
  s + w.length <= srcEnd ∧ mem.bytes s w.length = w

theorem takes_append {mem : Memory} {srcEnd s : Nat} {w v : List UInt8} :
    Takes mem srcEnd s (w ++ v) <->
      Takes mem srcEnd s w ∧ Takes mem srcEnd (s + w.length) v := by
  unfold Takes
  rw [List.length_append, Memory.bytes_add]
  constructor
  · rintro ⟨hle, hbytes⟩
    rcases List.append_inj hbytes (Memory.length_bytes mem s w.length) with
      ⟨hw, hv⟩
    exact ⟨⟨by omega, hw⟩, by omega, hv⟩
  · rintro ⟨⟨-, hw⟩, hle, hv⟩
    exact ⟨by omega, by rw [hw, hv]⟩

theorem takes_cons {mem : Memory} {srcEnd s : Nat} {c : UInt8}
    {w : List UInt8} :
    Takes mem srcEnd s (c :: w) <->
      (s < srcEnd ∧ mem s = c) ∧ Takes mem srcEnd (s + 1) w := by
  rw [← List.singleton_append, takes_append]
  apply and_congr_left
  intro _
  simp [Takes, Memory.bytes_one, Nat.succ_le_iff]

/-!
## Balanced strings
-/

/-- What a character does to the number of open delimiters. -/
def weight (b e c : UInt8) : Int :=
  if c = e then -1 else if c = b then 1 else 0

/-- Behind `cont` open delimiters, the string leaves the first one open and
never closes it. -/
def Closes (b e : UInt8) (cont : Int) (body : List UInt8) : Prop :=
  level b e body + cont = 1 ∧
    forall u, u <+: body -> 1 <= level b e u + cont

theorem closes_nil {b e : UInt8} {cont : Int} :
    Closes b e cont [] <-> cont = 1 := by
  constructor
  · rintro ⟨h, -⟩
    rwa [level, Int.zero_add] at h
  · rintro rfl
    refine ⟨rfl, fun u hu => ?_⟩
    rw [List.prefix_nil.mp hu]
    exact Int.le_refl 1

theorem closes_cons {b e c : UInt8} {cont : Int} {body : List UInt8} :
    Closes b e cont (c :: body) <->
      1 <= cont ∧ Closes b e (cont + weight b e c) body := by
  have hlevel : forall u, level b e (c :: u) + cont =
      level b e u + (cont + weight b e c) := by
    intro u
    rw [level]
    unfold weight
    omega
  constructor
  · rintro ⟨hend, hprefix⟩
    have hstart := hprefix [] List.nil_prefix
    refine ⟨by simpa [level] using hstart, ?_, ?_⟩
    · rw [← hlevel]
      exact hend
    · intro u hu
      rw [← hlevel]
      exact hprefix (c :: u) ((List.prefix_cons_inj c).mpr hu)
  · rintro ⟨hstart, hend, hprefix⟩
    refine ⟨by rw [hlevel]; exact hend, ?_⟩
    intro u hu
    rcases List.prefix_cons_iff.mp hu with rfl | ⟨v, rfl, hv⟩
    · simpa [level] using hstart
    · rw [hlevel]
      exact hprefix v hv

/-- A slice that closes the delimiter, by its first byte. -/
theorem exists_closes_iff {mem : Memory} {b e : UInt8} {srcEnd s s' : Nat}
    {cont : Int} :
    (exists body, Closes b e cont body ∧
        Takes mem srcEnd s (body ++ [e]) ∧ s' = s + body.length + 1) <->
      s < srcEnd ∧
        ((mem s = e ∧ cont = 1 ∧ s' = s + 1) ∨
          1 <= cont ∧ exists body,
            Closes b e (cont + weight b e (mem s)) body ∧
              Takes mem srcEnd (s + 1) (body ++ [e]) ∧
              s' = s + 1 + body.length + 1) := by
  constructor
  · rintro ⟨body, hcloses, htakes, rfl⟩
    cases body with
    | nil =>
        rw [List.nil_append, takes_cons] at htakes
        rw [closes_nil] at hcloses
        exact ⟨htakes.1.1, Or.inl ⟨htakes.1.2, hcloses, rfl⟩⟩
    | cons c body =>
        rw [List.cons_append, takes_cons] at htakes
        rcases htakes with ⟨⟨hin, rfl⟩, htakes⟩
        rw [closes_cons] at hcloses
        refine ⟨hin, Or.inr ⟨hcloses.1, body, hcloses.2, htakes, ?_⟩⟩
        rw [List.length_cons]
        omega
  · rintro ⟨hin, ⟨hmem, hcont, rfl⟩ | ⟨hcont, body, hcloses, htakes, rfl⟩⟩
    · refine ⟨[], closes_nil.mpr hcont, ?_, rfl⟩
      rw [List.nil_append, takes_cons]
      exact ⟨⟨hin, hmem⟩, Nat.succ_le_of_lt hin, rfl⟩
    · refine ⟨mem s :: body, closes_cons.mpr ⟨hcont, hcloses⟩, ?_, ?_⟩
      · rw [List.cons_append, takes_cons]
        exact ⟨⟨hin, rfl⟩, htakes⟩
      · rw [List.length_cons]
        omega

theorem matchbalanceLoop_iff {mem : Memory} {b e : UInt8} {srcEnd s' n : Nat} :
    forall {s cont : Nat}, s + n = srcEnd -> 1 <= cont ->
      (matchbalanceLoop mem b e n s cont = some s' <->
        exists body, Closes b e cont body ∧
          Takes mem srcEnd s (body ++ [e]) ∧ s' = s + body.length + 1) := by
  induction n with
  | zero =>
      intro s cont hs _
      rw [exists_closes_iff]
      exact iff_of_false nofun (fun h => absurd h.1 (by omega))
  | succ n ih =>
      intro s cont hs hcont
      have hin : s < srcEnd := by omega
      have hpos : (1 : Int) <= cont := by omega
      rw [exists_closes_iff, and_iff_right hin, and_iff_right hpos,
        matchbalanceLoop]
      split
      · rename_i he
        have hweight : weight b e (mem s) = -1 := if_pos he
        rw [hweight]
        split
        · rename_i hone
          subst hone
          constructor
          · intro h
            exact Or.inl ⟨he, rfl, (Option.some_inj.mp h).symm⟩
          · rintro (⟨-, -, h⟩ | ⟨body, ⟨-, hprefix⟩, -⟩)
            · rw [h]
            · have := hprefix [] List.nil_prefix
              simp [level] at this
        · rename_i hmore
          have hcast : ((cont - 1 : Nat) : Int) = (cont : Int) + -1 := by omega
          rw [ih (by omega) (by omega), hcast, or_iff_right]
          rintro ⟨-, h, -⟩
          omega
      · rename_i hne
        rw [or_iff_right (fun h => hne h.1)]
        split
        · rename_i hb
          have hweight : weight b e (mem s) = 1 := by
            unfold weight
            rw [if_neg hne, if_pos hb]
          rw [hweight, ih (by omega) (by omega), Int.natCast_succ]
        · rename_i hb
          have hweight : weight b e (mem s) = 0 := by
            unfold weight
            rw [if_neg hne, if_neg hb]
          rw [hweight, ih (by omega) (by omega), Int.add_zero]

theorem closes_one {b e : UInt8} {body : List UInt8} :
    Closes b e 1 body <->
      level b e body = 0 ∧ forall u, u <+: body -> 0 <= level b e u := by
  unfold Closes
  apply and_congr
  · omega
  · apply forall_congr'
    intro u
    apply imp_congr_right
    intro _
    omega

/-- The balanced item takes the balanced string at the cursor. -/
theorem matchbalance_iff {mem : Memory} {b e : UInt8} {srcEnd s s' : Nat}
    {t : List UInt8} :
    matchbalance mem srcEnd s (b :: e :: t) = some s' <->
      exists w, Balanced b e w ∧ Takes mem srcEnd s w ∧
        s' = s + w.length := by
  constructor
  · intro h
    have hin : s + 1 <= srcEnd := by
      have := matchbalance_le h
      omega
    rw [matchbalance] at h
    split at h
    · cases h
    · rename_i hb
      rw [matchbalanceLoop_iff (Nat.add_sub_cancel' hin) (Nat.le_refl 1)] at h
      rcases h with ⟨body, hcloses, htakes, rfl⟩
      refine ⟨b :: (body ++ [e]), ⟨body, rfl, closes_one.mp hcloses⟩, ?_, ?_⟩
      · rw [takes_cons]
        exact ⟨⟨hin, not_not.mp hb⟩, htakes⟩
      · rw [List.length_cons, List.length_append]
        simp only [List.length_cons, List.length_nil]
        omega
  · rintro ⟨w, ⟨body, rfl, hlevel⟩, htakes, rfl⟩
    rw [takes_cons] at htakes
    rcases htakes with ⟨⟨hin, hb⟩, htakes⟩
    rw [matchbalance, if_neg (not_not.mpr hb),
      matchbalanceLoop_iff (Nat.add_sub_cancel' hin) (Nat.le_refl 1)]
    refine ⟨body, closes_one.mpr hlevel, htakes, ?_⟩
    rw [List.length_cons, List.length_append]
    simp only [List.length_cons, List.length_nil]
    omega

/-!
## Sequences of items
-/

theorem itemsText_cons (item : PatternItem) (rest : List PatternItem) :
    itemsText (item :: rest) = item.text ++ itemsText rest := by
  rw [itemsText, List.flatMap_cons, itemsText]

theorem takes_bytes {mem : Memory} {srcEnd s i : Nat} :
    Takes mem srcEnd s (mem.bytes s i) <-> s + i <= srcEnd := by
  simp [Takes]

/-- The item at the front takes a piece of the slice that it matches. -/
theorem acceptsPattern_cons_iff {mem : Memory} {srcInit srcEnd s : Nat}
    {edge : Option UInt8} {tail : List UInt8} {item : PatternItem}
    {rest : List PatternItem} (h : ItemsWellFormed tail (item :: rest))
    (hs : s <= srcEnd) :
    AcceptsPattern mem srcInit srcEnd edge s (itemsText (item :: rest) ++ tail) <->
      exists w, item.Matches w ∧ Takes mem srcEnd s w ∧
        AcceptsPattern mem srcInit srcEnd edge (s + w.length)
          (itemsText rest ++ tail) := by
  rw [itemsText_cons, List.append_assoc]
  generalize htext : itemsText rest ++ tail = t
  cases item with
  | single x q =>
      rcases h with ⟨hx, honce, -⟩
      rw [htext] at honce
      have hquantifier := fun h => (honce h).1
      have hitem : IsItem (x.text ++ (q.text ++ t)) := by
        apply isItem_text hx
        intro hdollar
        cases q with
        | once => exact (honce rfl).2 hdollar
        | optional => exact List.cons_ne_nil _ _
        | star => exact List.cons_ne_nil _ _
        | plus => exact List.cons_ne_nil _ _
        | lazy => exact List.cons_ne_nil _ _
      change AcceptsPattern mem srcInit srcEnd edge s (x.text ++ q.text ++ t) <-> _
      rw [List.append_assoc, acceptsPattern_item_iff hitem]
      constructor
      · rintro ⟨ep, hep, i, hallows, hrepeats, haccepts⟩
        rw [classend_text hx, Option.some_inj] at hep
        subst hep
        rw [allows_text hquantifier] at hallows
        rw [repeats_text hx _ hs] at hrepeats
        rw [behindQuantifier_text hquantifier] at haccepts
        refine ⟨mem.bytes s i, ⟨?_, hrepeats.2⟩, ?_, ?_⟩
        · rwa [Memory.length_bytes]
        · exact takes_bytes.mpr hrepeats.1
        · rwa [Memory.length_bytes]
      · rintro ⟨w, ⟨hallows, hall⟩, ⟨hle, hw⟩, haccepts⟩
        refine ⟨q.text ++ t, classend_text hx _, w.length, ?_, ?_, ?_⟩
        · exact (allows_text hquantifier).mpr hallows
        · rw [repeats_text hx _ hs, hw]
          exact ⟨hle, hall⟩
        · rwa [behindQuantifier_text hquantifier]
  | balance b e =>
      change AcceptsPattern mem srcInit srcEnd edge s (0x25 :: 0x62 :: b :: e :: t) <->
        exists w, Balanced b e w ∧ _
      rw [acceptsPattern_balance_iff]
      constructor
      · rintro ⟨s', hbalance, haccepts⟩
        rcases matchbalance_iff.mp hbalance with ⟨w, hw, htakes, rfl⟩
        exact ⟨w, hw, htakes, haccepts⟩
      · rintro ⟨w, hw, htakes, haccepts⟩
        exact ⟨_, matchbalance_iff.mpr ⟨w, hw, htakes, rfl⟩, haccepts⟩

theorem ItemsWellFormed.rest {tail : List UInt8} {item : PatternItem}
    {rest : List PatternItem} (h : ItemsWellFormed tail (item :: rest)) :
    ItemsWellFormed tail rest := by
  cases item with
  | single x q => exact h.2.2
  | balance b e => exact h.2.2

/-- The items take consecutive pieces of the slice. -/
theorem acceptsPattern_items_iff {mem : Memory} {srcInit srcEnd : Nat}
    {edge : Option UInt8} {tail : List UInt8} {items : List PatternItem} :
    forall {s : Nat}, ItemsWellFormed tail items -> s <= srcEnd ->
      (AcceptsPattern mem srcInit srcEnd edge s (itemsText items ++ tail) <->
        exists pieces, List.Forall₂ PatternItem.Matches items pieces ∧
          Takes mem srcEnd s pieces.flatten ∧
          AcceptsPattern mem srcInit srcEnd edge (s + pieces.flatten.length) tail) := by
  induction items with
  | nil =>
      intro s _ hs
      constructor
      · intro h
        exact ⟨[], List.Forall₂.nil, ⟨hs, rfl⟩, h⟩
      · rintro ⟨pieces, hpieces, -, h⟩
        cases hpieces
        exact h
  | cons item rest ih =>
      intro s hitems hs
      rw [acceptsPattern_cons_iff hitems hs]
      constructor
      · rintro ⟨w, hw, htakes, haccepts⟩
        rcases (ih hitems.rest htakes.1).mp haccepts with
          ⟨pieces, hpieces, htakes', haccepts'⟩
        refine ⟨w :: pieces, List.Forall₂.cons hw hpieces, ?_, ?_⟩
        · rw [List.flatten_cons, takes_append]
          exact ⟨htakes, htakes'⟩
        · rwa [List.flatten_cons, List.length_append, ← Nat.add_assoc]
      · rintro ⟨pieces, hpieces, htakes, haccepts⟩
        cases hpieces with
        | @cons _ w _ pieces hw hpieces =>
            rw [List.flatten_cons, takes_append] at htakes
            rw [List.flatten_cons, List.length_append, ← Nat.add_assoc] at haccepts
            exact ⟨w, hw, htakes.1,
              (ih hitems.rest htakes.1.1).mpr ⟨pieces, hpieces, htakes.2, haccepts⟩⟩

theorem acceptsPattern_tail_iff {mem : Memory} {srcInit srcEnd s : Nat}
    {edge : Option UInt8} {P : Pattern} :
    AcceptsPattern mem srcInit srcEnd edge s P.tail <->
      (P.atEnd = true -> s = srcEnd) := by
  unfold Pattern.tail
  split
  · rename_i hend
    rw [acceptsPattern_stop_iff]
    exact ⟨fun h _ => h, fun h => h hend⟩
  · rename_i hend
    exact iff_of_true (AcceptsPattern.finish s) (fun h => absurd h hend)

/-!
## Patterns
-/

theorem unanchored_text {P : Pattern} (h : P.WellFormed) :
    unanchored P.text = itemsText P.items ++ P.tail ∧
      isAnchored P.text = P.anchored := by
  rcases P with ⟨_ | _, items, atEnd⟩
  · have hcaret := h.2 rfl
    change unanchored (itemsText items ++ _) = itemsText items ++ _ ∧
      isAnchored (itemsText items ++ _) = false
    generalize itemsText items ++ Pattern.tail _ = t at hcaret ⊢
    unfold unanchored isAnchored
    split
    · exact absurd rfl hcaret
    · exact ⟨rfl, rfl⟩
  · exact ⟨rfl, rfl⟩

/-- The pieces of the string are what the items take of the slice. -/
theorem acceptsSlice_text {mem : Memory} {s len : Nat} {edge : Option UInt8}
    {P : Pattern} (h : P.WellFormed) :
    AcceptsSlice mem s (s + len) edge P.text <->
      P.Matches (mem.bytes s len) := by
  rcases unanchored_text h with ⟨hitems, hanchored⟩
  unfold AcceptsSlice
  rw [hitems, hanchored]
  constructor
  · rintro ⟨i, hi, hanchor, haccepts⟩
    rw [acceptsPattern_items_iff h.1 hi] at haccepts
    rcases haccepts with ⟨pieces, hpieces, ⟨hle, hbytes⟩, htail⟩
    rw [acceptsPattern_tail_iff] at htail
    generalize hn : pieces.flatten.length = n at hle hbytes htail
    refine ⟨mem.bytes s i, pieces, mem.bytes (s + i + n) (len - i - n),
      ?_, hpieces, ?_, ?_⟩
    · have hlen : len = i + n + (len - i - n) := by omega
      rw [← hbytes, ← Memory.bytes_add, Nat.add_assoc s, ← Memory.bytes_add,
        ← hlen]
    · intro hstart
      rw [hanchor hstart]
      rfl
    · intro hend
      have := htail hend
      rw [show len - i - n = 0 by omega]
      rfl
  · rintro ⟨before, pieces, after, hbytes, hpieces, hstart, hend⟩
    have hlen : len =
        before.length + pieces.flatten.length + after.length := by
      have := congrArg List.length hbytes
      simpa only [Memory.length_bytes, List.length_append] using this
    rw [hlen, Memory.bytes_add, Memory.bytes_add] at hbytes
    rcases List.append_inj hbytes (by simp) with ⟨hfront, -⟩
    rcases List.append_inj hfront (by simp) with ⟨-, hpiece⟩
    have hi : s + before.length <= s + len := by omega
    refine ⟨before.length, hi, ?_, ?_⟩
    · intro hanchor
      rw [hstart hanchor]
      rfl
    · rw [acceptsPattern_items_iff h.1 hi]
      refine ⟨pieces, hpieces, ⟨by omega, hpiece⟩, acceptsPattern_tail_iff.mpr ?_⟩
      intro hatEnd
      rw [hend hatEnd] at hlen
      rw [hlen, ← Nat.add_assoc, ← Nat.add_assoc]
      rfl

/-- More turns than the pattern and the slice are long change nothing. -/
def Terminates (mem : Memory) (srcInit srcEnd : Nat)
    (p : List UInt8) : Prop :=
  (forall n s, p.length < n ->
    matchPattern mem srcInit srcEnd n s p =
      matchPattern mem srcInit srcEnd (p.length + 1) s p) ∧
  forall anchor n, srcEnd < srcInit + n ->
    matchFrom mem srcInit srcEnd anchor p n srcInit =
      matchFrom mem srcInit srcEnd anchor p (srcEnd - srcInit + 1) srcInit

theorem terminates {mem : Memory} {srcInit srcEnd : Nat} {p : List UInt8}
    (h : srcInit <= srcEnd) : Terminates mem srcInit srcEnd p := by
  constructor
  · intro n s hn
    exact matchPattern_fuel (Nat.lt_succ_self _) hn
  · intro anchor n hn
    rw [Bool.eq_iff_iff, matchFrom_iff h hn, matchFrom_iff h (by omega)]

/--
The matcher is sound and complete: it terminates, and finds a match exactly when
the pattern matches the string.
-/
theorem lsbStringMatch_matches (P : Pattern) (h : P.WellFormed)
    (mem : Memory) (s len : Nat) :
    Terminates mem s (s + len) (unanchored P.text) ∧
      (lsbStringMatch mem ⟨some s, len⟩ P.text = true <->
        P.Matches (mem.bytes s len)) := by
  constructor
  · exact terminates (Nat.le_add_right s len)
  · rw [lsbStringMatch_iff, acceptsSlice_text h]

/-- A name and its arguments. -/
def callPattern : Pattern where
  anchored := true
  items :=
    [PatternItem.single (Single.set [SetMember.range 0x61 0x7a]) Quantifier.plus,
    PatternItem.balance 0x28 0x29]
  atEnd := true

theorem callPattern_wellFormed : callPattern.WellFormed := by
  have hmember : (SetMember.range 0x61 0x7a).WellFormed :=
    ⟨⟨by decide, by decide⟩, by decide, by decide, by decide⟩
  constructor
  · exact ⟨⟨by decide, ⟨hmember, nofun, by decide, trivial⟩, by decide⟩,
      nofun, by decide, by decide, trivial⟩
  · exact nofun

theorem lsbStringMatch_callPattern :
    callPattern.text = ascii "^[a-z]+%b()$" ∧
      (Terminates (Memory.ofList (ascii "f(x)")) 0 4 (ascii "[a-z]+%b()$") ∧
        (lsbStringMatch (Memory.ofList (ascii "f(x)")) ⟨some 0, 4⟩
            (ascii "^[a-z]+%b()$") = true <->
          callPattern.Matches ((Memory.ofList (ascii "f(x)")).bytes 0 4))) :=
  ⟨by decide, lsbStringMatch_matches callPattern callPattern_wellFormed
    (Memory.ofList (ascii "f(x)")) 0 4⟩

end Util
end LuaSandbox
