import LuaSandbox.Foundation.Peg.Depth

/-!
# Parsing a window of the input

Conditions under which an expression that stops in front of the rest `t` of its
input takes the same way when that rest is cut off.  The full run reads `r ++ t`
and the run on the window reads `r`.
-/

namespace LuaSandbox
namespace Foundation
namespace Peg

variable {sigma alpha rho : Type}
variable {env env' : rho -> Parser sigma alpha}
variable {t : List UInt8} {p q s : Peg sigma alpha rho}

/-!
## Agreement
-/

/-- The captured texts are the same. -/
structure Synced (t : List UInt8) (kf kw : Kept sigma) : Prop where
  textBegin_eq : kf.textBegin = kw.textBegin ++ t
  textEnd_eq : kf.textEnd = kw.textEnd ++ t

theorem Synced.text_eq {kf kw : Kept sigma} (h : Synced t kf kw) :
    kf.text = kw.text := by
  have hlength : kf.textBegin.length - kf.textEnd.length =
      kw.textBegin.length - kw.textEnd.length := by
    rw [h.textBegin_eq, h.textEnd_eq, List.length_append, List.length_append]
    omega
  rw [Kept.text, Kept.text, hlength, h.textBegin_eq]
  exact List.take_append_of_le_length (Nat.sub_le _ _)

/-- How far a success of the full run may reach: not beyond the window, only
when the window fails, or in any case. -/
inductive Reach where
  | tight | strict | loose
  deriving DecidableEq

/-- The outcome of the full run and that on the window; `o` tells that the
captured texts are the same behind a success. -/
inductive Agrees (t : List UInt8) (m : Reach) (o : Bool) :
    Outcome sigma alpha -> Outcome sigma alpha -> Prop where
  | fails (kf kw : Kept sigma) : Agrees t m o (none, kf) (none, kw)
  | within (r : List UInt8) (ts : List alpha) (kf kw : Kept sigma)
      (h : o = true -> Synced t kf kw) :
      Agrees t m o (some (r ++ t, ts), kf) (some (r, ts), kw)
  | beyond (x : List UInt8 × List alpha) (kf : Kept sigma)
      (w : Outcome sigma alpha) (hlt : x.1.length < t.length)
      (htight : m ≠ Reach.tight) (hstrict : m = Reach.strict -> w.1 = none) :
      Agrees t m o (some x, kf) w

/-- On every window the expression agrees with the full run; `i` tells that the
captured texts have to be the same in front of it. -/
def Windowed (env env' : rho -> Parser sigma alpha) (t : List UInt8)
    (m : Reach) (i o : Bool) (p : Peg sigma alpha rho) : Prop :=
  forall r kf kw, (i = true -> Synced t kf kw) ->
    Agrees t m o (denote env p (r ++ t) kf) (denote env' p r kw)

theorem Agrees.weaken {m m' : Reach} {o o' : Bool}
    {f w : Outcome sigma alpha} (h : Agrees t m o f w)
    (hm : m ≠ Reach.tight -> m' ≠ Reach.tight)
    (hs : m' = Reach.strict -> m ≠ Reach.loose) (ho : o' = true -> o = true) :
    Agrees t m' o' f w := by
  cases h with
  | fails kf kw => exact Agrees.fails kf kw
  | within r ts kf kw hk => exact Agrees.within r ts kf kw (fun h => hk (ho h))
  | beyond x kf w hlt htight hstrict =>
      refine Agrees.beyond x kf w hlt (hm htight) (fun h => hstrict ?_)
      have hloose := hs h
      cases m with
      | tight => exact absurd rfl htight
      | strict => rfl
      | loose => exact absurd rfl hloose

theorem Windowed.weaken {m : Reach} {i o i' o' : Bool}
    (h : Windowed env env' t m i o p) (hi : i = true -> i' = true)
    (ho : o' = true -> o = true) : Windowed env env' t m i' o' p :=
  fun r kf kw hk => (h r kf kw (fun h => hk (hi h))).weaken (fun h => h)
    (fun hm hloose => by rw [hm] at hloose; cases hloose) ho

theorem Windowed.strict_of_tight {i o : Bool}
    (h : Windowed env env' t Reach.tight i o p) :
    Windowed env env' t Reach.strict i o p :=
  fun r kf kw hk => (h r kf kw hk).weaken (fun h => absurd rfl h)
    (fun _ h => by cases h) (fun h => h)

theorem Windowed.loose {m : Reach} {i o : Bool}
    (h : Windowed env env' t m i o p) :
    Windowed env env' t Reach.loose i o p :=
  fun r kf kw hk => (h r kf kw hk).weaken (fun _ h => by cases h)
    (fun h => by cases h) (fun h => h)

/-- A full run that stops in front of the rest is a run on the window. -/
theorem Agrees.whole {m : Reach} {o : Bool} {ts : List alpha}
    {kf : Kept sigma} {w : Outcome sigma alpha}
    (h : Agrees t m o (some (t, ts), kf) w) :
    exists kw, w = (some ([], ts), kw) := by
  generalize hf : ((some (t, ts), kf) : Outcome sigma alpha) = f at h
  cases h with
  | fails kf kw => cases hf
  | within r ts kf kw _ =>
      simp only [Prod.mk.injEq, Option.some.injEq, List.self_eq_append_left]
        at hf
      rcases hf with ⟨⟨rfl, rfl⟩, _⟩
      exact ⟨kw, rfl⟩
  | beyond x kf w hlt _ _ =>
      cases hf
      exact absurd hlt (Nat.lt_irrefl _)

/-!
## Single steps
-/

theorem windowed_lit {word : List UInt8} (i : Bool)
    (h : forall b, t.head? = some b -> b ∉ word) :
    Windowed env env' t Reach.tight i i (lit word) := by
  intro r kf kw hk
  by_cases hprefix : word <+: r
  · obtain ⟨tail, rfl⟩ := hprefix
    have hfull : denote env (lit word) (word ++ tail ++ t) kf =
        (some (tail ++ t, []), kf) :=
      lit_eq_some.mpr ⟨List.append_assoc _ _ _, rfl, rfl⟩
    have hwindow : denote env' (lit word) (word ++ tail) kw =
        (some (tail, []), kw) := lit_eq_some.mpr ⟨rfl, rfl, rfl⟩
    rw [hfull, hwindow]
    exact Agrees.within tail [] kf kw hk
  · -- a longer match would take the first byte behind the window
    have hnot : ¬ word <+: r ++ t := by
      intro hlong
      rcases List.prefix_or_prefix_of_prefix hlong (List.prefix_append r t)
        with hshort | ⟨tail, rfl⟩
      · exact hprefix hshort
      · have htail : tail <+: t := (List.prefix_append_right_inj r).mp hlong
        cases tail with
        | nil => exact hprefix (by simp)
        | cons b rest =>
            obtain ⟨t', rfl⟩ := htail
            exact h b rfl (List.mem_append_right r List.mem_cons_self)
    simp only [denote]
    rw [if_neg (fun hmatch => hnot (List.isPrefixOf_iff_prefix.mp hmatch)),
      if_neg (fun hmatch => hprefix (List.isPrefixOf_iff_prefix.mp hmatch))]
    exact Agrees.fails kf kw

theorem windowed_cls {member : UInt8 -> Bool} (i : Bool)
    (h : forall b, t.head? = some b -> member b = false) :
    Windowed env env' t Reach.tight i i (cls member) := by
  intro r kf kw hk
  cases r with
  | nil =>
      cases t with
      | nil => exact Agrees.fails kf kw
      | cons b rest =>
          have hb := h b rfl
          simp only [denote, List.nil_append, hb, if_neg Bool.false_ne_true]
          exact Agrees.fails kf kw
  | cons b rest =>
      by_cases hb : member b = true
      · simp only [denote, List.cons_append, if_pos hb]
        exact Agrees.within rest [] kf kw hk
      · simp only [denote, List.cons_append, if_neg hb]
        exact Agrees.fails kf kw

theorem windowed_act {f : List UInt8 -> alpha} (i : Bool)
    (h : i = true ∨ forall a b, f a = f b) :
    Windowed env env' t Reach.tight i i (act f) := by
  intro r kf kw hk
  have htext : f kf.text = f kw.text := by
    rcases h with hi | hconst
    · rw [(hk hi).text_eq]
    · exact hconst _ _
  simp only [denote, htext]
  exact Agrees.within r [f kw.text] kf kw hk

theorem windowed_check {f : List UInt8 -> sigma -> Bool × sigma}
    (h : forall text u u', (f text u).1 = (f text u').1) :
    Windowed env env' t Reach.tight true true (check f) := by
  intro r kf kw hk
  have hsynced := hk rfl
  have hverdict : (f kf.text kf.user).1 = (f kw.text kw.user).1 := by
    rw [hsynced.text_eq]
    exact h _ _ _
  simp only [denote, hverdict]
  by_cases hcase : (f kw.text kw.user).1 = true
  · rw [if_pos hcase, if_pos hcase]
    exact Agrees.within r [] _ _
      (fun _ => ⟨hsynced.textBegin_eq, hsynced.textEnd_eq⟩)
  · rw [if_neg hcase, if_neg hcase]
    exact Agrees.fails _ _

/-!
## Combinations
-/

/-- What lies behind a success beyond the window is beyond it as well. -/
theorem seq_beyond (henv : Shrinks env) {r : List UInt8} {k k1 : Kept sigma}
    {x : List UInt8 × List alpha} {n : Nat} (hlt : x.1.length < n)
    (hp : denote env p r k = (some x, k1)) :
    (exists k2, denote env (seq p q) r k = (none, k2)) ∨
      exists y k2, y.1.length < n ∧
        denote env (seq p q) r k = (some y, k2) := by
  rcases hq : denote env q x.1 k1 with ⟨_ | ⟨r2, ts2⟩, k2⟩
  · refine Or.inl ⟨k2, ?_⟩
    simp only [denote, hp, hq]
  · refine Or.inr ⟨(r2, x.2 ++ ts2), k2, ?_, ?_⟩
    · have := (denote_suffix henv q hq).length_le
      change r2.length < n
      omega
    · simp only [denote, hp, hq]

/-- Go on with another parser behind a success. -/
def andThen (x : Outcome sigma alpha) (g : Parser sigma alpha) :
    Outcome sigma alpha :=
  match x with
  | (none, k) => (none, k)
  | (some (r, ts), k) => ((g r k).1.map (fun y => (y.1, ts ++ y.2)), (g r k).2)

theorem denote_seq (r : List UInt8) (k : Kept sigma) :
    denote env (seq p q) r k = andThen (denote env p r k) (denote env q) := by
  simp only [denote]
  rcases denote env p r k with ⟨_ | ⟨r1, ts1⟩, k1⟩
  · rfl
  · simp only [andThen]
    rcases denote env q r1 k1 with ⟨_ | ⟨r2, ts2⟩, k2⟩ <;> rfl

theorem agrees_seq {j o : Bool} {m : Reach} {r : List UInt8}
    {kf kw : Kept sigma}
    (hp : Agrees t Reach.tight j (denote env p (r ++ t) kf)
      (denote env' p r kw))
    (hq : Windowed env env' t m j o q) :
    Agrees t m o (denote env (seq p q) (r ++ t) kf)
      (denote env' (seq p q) r kw) := by
  rw [denote_seq, denote_seq]
  generalize denote env p (r ++ t) kf = f at hp
  generalize denote env' p r kw = w at hp
  cases hp with
  | fails kf kw => exact Agrees.fails kf kw
  | within r1 ts1 kf1 kw1 hk1 =>
      have hrest := hq r1 kf1 kw1 hk1
      simp only [andThen]
      generalize denote env q (r1 ++ t) kf1 = f at hrest
      generalize denote env' q r1 kw1 = w at hrest
      cases hrest with
      | fails kf2 kw2 => exact Agrees.fails kf2 kw2
      | within r2 ts2 kf2 kw2 hk2 =>
          exact Agrees.within r2 (ts1 ++ ts2) kf2 kw2 hk2
      | beyond x kf2 w hlt htight hstrict =>
          refine Agrees.beyond (x.1, ts1 ++ x.2) kf2 _ hlt htight
            (fun hm => ?_)
          simp only [hstrict hm, Option.map_none]
  | beyond x kf w hlt htight _ => exact absurd rfl htight

theorem windowed_seq_tight {i j o : Bool} {m : Reach}
    (hp : Windowed env env' t Reach.tight i j p)
    (hq : Windowed env env' t m j o q) :
    Windowed env env' t m i o (seq p q) :=
  fun r kf kw hk => agrees_seq (hp r kf kw hk) hq

/-- An outcome that does not reach beyond the window. -/
theorem Agrees.tight_of_le {m : Reach} {o : Bool}
    {f w : Outcome sigma alpha} (h : Agrees t m o f w)
    (hle : forall x, f.1 = some x -> t.length <= x.1.length) :
    Agrees t Reach.tight o f w := by
  cases h with
  | fails kf kw => exact Agrees.fails kf kw
  | within r ts kf kw hk => exact Agrees.within r ts kf kw hk
  | beyond x kf w hlt _ _ =>
      have := hle x rfl
      omega

/-- If the first part reaches beyond the window only when the window fails,
the sequence fails there, too. -/
theorem windowed_seq_strict (henv : Shrinks env) {i j o : Bool} {m : Reach}
    (hm : m ≠ Reach.tight) (hp : Windowed env env' t Reach.strict i j p)
    (hq : Windowed env env' t m j o q) :
    Windowed env env' t m i o (seq p q) := by
  intro r kf kw hk
  have hstep := hp r kf kw hk
  by_cases hle : forall x, (denote env p (r ++ t) kf).1 = some x ->
      t.length <= x.1.length
  · exact agrees_seq (hstep.tight_of_le hle) hq
  · rcases hfull : denote env p (r ++ t) kf with ⟨x, kf1⟩
    rw [hfull] at hstep hle
    generalize hwindow : denote env' p r kw = w at hstep
    cases hstep with
    | fails kf kw => exact absurd (fun x hx => by cases hx) hle
    | within r1 ts1 _ kw1 _ =>
        refine absurd (fun x hx => ?_) hle
        cases hx
        simp
    | beyond x _ _ hlt _ hstrict =>
        rcases w with ⟨_ | y, kw1⟩
        · have hfails : denote env' (seq p q) r kw = (none, kw1) := by
            rw [denote_seq, hwindow]
            rfl
          rw [hfails]
          rcases seq_beyond (q := q) henv hlt hfull with
            ⟨k2, hnone⟩ | ⟨y, k2, hlt2, hsome⟩
          · rw [hnone]
            exact Agrees.fails k2 kw1
          · rw [hsome]
            exact Agrees.beyond y k2 _ hlt2 hm (fun _ => rfl)
        · cases hstrict rfl

/-- The expression never fails. -/
def Total (env : rho -> Parser sigma alpha) (p : Peg sigma alpha rho) :
    Prop :=
  forall r k, (denote env p r k).1 ≠ none

/-- Before a part that cannot fail it does not matter how far the first part
reaches. -/
theorem windowed_seq_total (henv : Shrinks env) {i j o : Bool}
    (hp : Windowed env env' t Reach.loose i j p)
    (hq : Windowed env env' t Reach.loose j o q) (htotal : Total env q) :
    Windowed env env' t Reach.loose i o (seq p q) := by
  intro r kf kw hk
  have hstep := hp r kf kw hk
  by_cases hle : forall x, (denote env p (r ++ t) kf).1 = some x ->
      t.length <= x.1.length
  · exact agrees_seq (hstep.tight_of_le hle) hq
  · rcases not_forall.mp hle with ⟨x, hx⟩
    rcases Classical.not_imp.mp hx with ⟨hx, hnot⟩
    have hlt := Nat.lt_of_not_le hnot
    have hfull : denote env p (r ++ t) kf =
        (some x, (denote env p (r ++ t) kf).2) := Prod.ext hx rfl
    rcases seq_beyond (q := q) henv hlt hfull with
      ⟨k2, hnone⟩ | ⟨y, k2, hlt2, hsome⟩
    · rw [denote_seq, hfull] at hnone
      simp only [andThen, Prod.mk.injEq, Option.map_eq_none_iff] at hnone
      exact absurd hnone.1 (htotal _ _)
    · rw [hsome]
      exact Agrees.beyond y k2 _ hlt2 (fun h => by cases h)
        (fun h => by cases h)

theorem agrees_alt {o : Bool} {m : Reach} {r : List UInt8}
    {kf kw : Kept sigma}
    (hp : Agrees t Reach.tight o (denote env p (r ++ t) kf)
      (denote env' p r kw))
    (hq : forall kf kw, Agrees t m o (denote env q (r ++ t) kf)
      (denote env' q r kw)) :
    Agrees t m o (denote env (alt p q) (r ++ t) kf)
      (denote env' (alt p q) r kw) := by
  simp only [denote]
  generalize denote env p (r ++ t) kf = f at hp
  generalize denote env' p r kw = w at hp
  cases hp with
  | fails kf1 kw1 => exact hq kf1 kw1
  | within r1 ts1 kf1 kw1 hk1 => exact Agrees.within r1 ts1 kf1 kw1 hk1
  | beyond x kf w hlt htight _ => exact absurd rfl htight

theorem windowed_alt_tight {i o : Bool} {m : Reach}
    (hp : Windowed env env' t Reach.tight i o p)
    (hq : Windowed env env' t m false o q) :
    Windowed env env' t m i o (alt p q) :=
  fun r kf kw hk => agrees_alt (hp r kf kw hk)
    (fun kf kw => hq r kf kw (fun h => by cases h))

theorem windowed_alt_loose {i o : Bool}
    (hp : Windowed env env' t Reach.loose i o p)
    (hq : Windowed env env' t Reach.loose false o q) :
    Windowed env env' t Reach.loose i o (alt p q) := by
  intro r kf kw hk
  have hstep := hp r kf kw hk
  simp only [denote]
  generalize denote env p (r ++ t) kf = f at hstep
  generalize denote env' p r kw = w at hstep
  cases hstep with
  | fails kf1 kw1 => exact hq r kf1 kw1 (fun h => by cases h)
  | within r1 ts1 kf1 kw1 hk1 => exact Agrees.within r1 ts1 kf1 kw1 hk1
  | beyond x kf w hlt htight hstrict =>
      exact Agrees.beyond x kf _ hlt htight (fun h => by cases h)

/-- Where the first alternative succeeds, the second fails on the window. -/
theorem windowed_alt_disjoint {i o : Bool}
    (hp : Windowed env env' t Reach.strict i o p)
    (hq : Windowed env env' t Reach.strict false o q)
    (hdisjoint : forall r kf kw, (denote env p (r ++ t) kf).1 ≠ none ->
      (denote env' q r kw).1 = none) :
    Windowed env env' t Reach.strict i o (alt p q) := by
  intro r kf kw hk
  have hstep := hp r kf kw hk
  have hother := hdisjoint r kf
  simp only [denote]
  generalize denote env p (r ++ t) kf = f at hstep hother
  generalize denote env' p r kw = w at hstep
  cases hstep with
  | fails kf1 kw1 => exact hq r kf1 kw1 (fun h => by cases h)
  | within r1 ts1 kf1 kw1 hk1 => exact Agrees.within r1 ts1 kf1 kw1 hk1
  | beyond x kf w hlt htight hstrict =>
      refine Agrees.beyond x kf _ hlt htight (fun hm => ?_)
      have hnone := hstrict hm
      rcases w with ⟨_ | y, kw1⟩
      · exact hother kw1 (fun h => by cases h)
      · cases hnone

theorem windowed_opt {i : Bool} {m : Reach}
    (hp : Windowed env env' t Reach.tight i false p) :
    Windowed env env' t m i false (opt p) := by
  intro r kf kw hk
  have hstep := hp r kf kw hk
  simp only [denote]
  generalize denote env p (r ++ t) kf = f at hstep
  generalize denote env' p r kw = w at hstep
  cases hstep with
  | fails kf1 kw1 => exact Agrees.within r [] kf1 kw1 (fun h => by cases h)
  | within r1 ts1 kf1 kw1 hk1 => exact Agrees.within r1 ts1 kf1 kw1 hk1
  | beyond x kf w hlt htight _ => exact absurd rfl htight

/-- Behind a capture the captured texts are the same. -/
theorem windowed_capture {o : Bool} {m : Reach}
    (hp : Windowed env env' t m false o p) :
    Windowed env env' t m false true (capture p) := by
  intro r kf kw hk
  have hstep := hp r { kf with textBegin := r ++ t }
    { kw with textBegin := r } (fun h => by cases h)
  simp only [denote]
  generalize denote env p (r ++ t) { kf with textBegin := r ++ t } = f
    at hstep
  generalize denote env' p r { kw with textBegin := r } = w at hstep
  cases hstep with
  | fails kf1 kw1 => exact Agrees.fails kf1 kw1
  | within r1 ts1 kf1 kw1 hk1 =>
      exact Agrees.within r1 ts1 _ _ (fun _ => ⟨rfl, rfl⟩)
  | beyond x kf w hlt htight hstrict =>
      refine Agrees.beyond x _ _ hlt htight (fun hm => ?_)
      have hnone := hstrict hm
      rcases w with ⟨_ | y, kw1⟩
      · rfl
      · cases hnone

theorem denote_seq_assoc (r : List UInt8) (k : Kept sigma) :
    denote env (seq (seq p q) s) r k = denote env (seq p (seq q s)) r k := by
  rw [denote_seq, denote_seq, denote_seq]
  rcases denote env p r k with ⟨_ | ⟨r1, ts1⟩, k1⟩
  · rfl
  · simp only [andThen, denote_seq]
    rcases denote env q r1 k1 with ⟨_ | ⟨r2, ts2⟩, k2⟩
    · rfl
    · simp only [Option.map_some]
      rcases denote env s r2 k2 with ⟨_ | ⟨r3, ts3⟩, k3⟩
      · rfl
      · simp only [Option.map_some, List.append_assoc]

theorem windowed_seq_assoc {i o : Bool} {m : Reach}
    (h : Windowed env env' t m i o (seq (seq p q) s)) :
    Windowed env env' t m i o (seq p (seq q s)) := by
  intro r kf kw hk
  rw [← denote_seq_assoc, ← denote_seq_assoc]
  exact h r kf kw hk

/-!
## Repetition
-/

/-- Both runs repeat alike as long as the rounds start inside the window; then
the full run goes on, and the one on the window is at its end. -/
theorem iterate_interior (henv : Shrinks env) (henv' : Shrinks env')
    (hcons : Consumes p)
    (hp : forall r kf kw, r ≠ [] ->
      Agrees t Reach.tight false (denote env p (r ++ t) kf)
        (denote env' p r kw)) (n : Nat) :
    forall m r kf kw, r.length < n -> r.length < m ->
      (exists r1 ts kf1 kw1,
        iterate (denote env p) n (r ++ t) kf = ((r1 ++ t, ts), kf1) ∧
          iterate (denote env' p) m r kw = ((r1, ts), kw1)) ∨
      exists x tsf kf1 tsw kw1, x <:+ t ∧
        iterate (denote env p) n (r ++ t) kf = ((x, tsf), kf1) ∧
          iterate (denote env' p) m r kw = (([], tsw), kw1) := by
  induction n with
  | zero =>
      intro m r kf kw hn
      cases hn
  | succ n ih =>
      intro m r kf kw hn hm
      cases m with
      | zero => cases hm
      | succ m =>
          by_cases hr : r = []
          · subst hr
            right
            have hsuffix := iterate_induction (f := denote env p)
              (P := fun r _ r' _ _ => r' <:+ r)
              (fun r _ _ _ => List.suffix_refl r)
              (fun _ _ _ _ _ _ _ _ hf hrest =>
                hrest.trans (denote_suffix henv p hf))
              (fun r _ => List.suffix_refl r) (n + 1) t kf
            rcases denote_nil_of_consumes henv' hcons kw with ⟨kw1, hnone⟩
            exact ⟨_, _, _, [], kw1, hsuffix, rfl, by simp only [iterate, hnone]⟩
          · have hround := hp r kf kw hr
            have hshort : forall r1 ts1 kw1,
                denote env' p r kw = (some (r1, ts1), kw1) ->
                  r1.length < r.length :=
              fun r1 ts1 kw1 h => denote_consumes henv' p hcons h
            simp only [iterate]
            generalize denote env p (r ++ t) kf = f at hround
            generalize denote env' p r kw = w at hround hshort
            cases hround with
            | fails kf1 kw1 => exact Or.inl ⟨r, [], kf1, kw1, rfl, rfl⟩
            | within r1 ts1 kf1 kw1 _ =>
                have hlt := hshort r1 ts1 kw1 rfl
                rcases ih m r1 kf1 kw1 (by omega) (by omega) with
                  ⟨r2, ts2, kf2, kw2, hf, hw⟩ |
                  ⟨x, tsf, kf2, tsw, kw2, hx, hf, hw⟩
                · exact Or.inl ⟨r2, ts1 ++ ts2, kf2, kw2,
                    by simp only [hf], by simp only [hw]⟩
                · exact Or.inr ⟨x, ts1 ++ tsf, kf2, ts1 ++ tsw, kw2, hx,
                    by simp only [hf], by simp only [hw]⟩
            | beyond x kf w hlt htight _ => exact absurd rfl htight

theorem iterate_windowed (henv' : Shrinks env') (hcons : Consumes p)
    (hp : Windowed env env' t Reach.tight false false p) (n : Nat) :
    forall m r kf kw, r.length < n -> r.length < m ->
      exists r1 ts kf1 kw1,
        iterate (denote env p) n (r ++ t) kf = ((r1 ++ t, ts), kf1) ∧
          iterate (denote env' p) m r kw = ((r1, ts), kw1) := by
  induction n with
  | zero =>
      intro m r kf kw hn
      cases hn
  | succ n ih =>
      intro m r kf kw hn hm
      cases m with
      | zero => cases hm
      | succ m =>
          have hround := hp r kf kw (fun h => by cases h)
          have hshort : forall r1 ts1 kw1,
              denote env' p r kw = (some (r1, ts1), kw1) ->
                r1.length < r.length :=
            fun r1 ts1 kw1 h => denote_consumes henv' p hcons h
          simp only [iterate]
          generalize denote env p (r ++ t) kf = f at hround
          generalize denote env' p r kw = w at hround hshort
          cases hround with
          | fails kf1 kw1 => exact ⟨r, [], kf1, kw1, rfl, rfl⟩
          | within r1 ts1 kf1 kw1 _ =>
              have hlt := hshort r1 ts1 kw1 rfl
              rcases ih m r1 kf1 kw1 (by omega) (by omega) with
                ⟨r2, ts2, kf2, kw2, hf, hw⟩
              exact ⟨r2, ts1 ++ ts2, kf2, kw2, by simp only [hf],
                by simp only [hw]⟩
          | beyond x kf w hlt htight _ => exact absurd rfl htight

theorem windowed_star (henv' : Shrinks env') {i : Bool} {m : Reach}
    (hcons : Consumes p)
    (hp : Windowed env env' t Reach.tight false false p) :
    Windowed env env' t m i false (star p) := by
  intro r kf kw _
  rcases iterate_windowed henv' hcons hp ((r ++ t).length + 1)
      (r.length + 1) r kf kw (by rw [List.length_append]; omega)
      (by omega) with
    ⟨r1, ts, kf1, kw1, hf, hw⟩
  rw [star_eq_some.mpr hf, star_eq_some.mpr hw]
  exact Agrees.within r1 ts kf1 kw1 (fun h => by cases h)

/-- A captured repetition that a delimiter ends. -/
theorem windowed_delimited (henv : Shrinks env) (henv' : Shrinks env')
    {d : UInt8} (hd : t.head? ≠ some d) (hcons : Consumes p)
    (hp : forall r kf kw, r ≠ [] ->
      Agrees t Reach.tight false (denote env p (r ++ t) kf)
        (denote env' p r kw)) :
    Windowed env env' t Reach.strict false true
      (seq (capture (star p)) (lit [d])) := by
  intro r kf kw _
  rcases iterate_interior henv henv' hcons hp ((r ++ t).length + 1)
      (r.length + 1) r { kf with textBegin := r ++ t }
      { kw with textBegin := r } (by rw [List.length_append]; omega) (by omega) with
    ⟨r1, ts, kf1, kw1, hf, hw⟩ | ⟨x, tsf, kf1, tsw, kw1, hx, hf, hw⟩
  · have hfull : denote env (capture (star p)) (r ++ t) kf = _ :=
      capture_eq_some.mpr ⟨kf1, star_eq_some.mpr hf, rfl⟩
    have hwindow : denote env' (capture (star p)) r kw = _ :=
      capture_eq_some.mpr ⟨kw1, star_eq_some.mpr hw, rfl⟩
    have hstep : Agrees t Reach.tight true
        (denote env (capture (star p)) (r ++ t) kf)
        (denote env' (capture (star p)) r kw) := by
      rw [hfull, hwindow]
      exact Agrees.within r1 ts _ _ (fun _ => ⟨rfl, rfl⟩)
    exact agrees_seq hstep (windowed_lit true (fun b hb hmem => by
      rw [List.mem_singleton.mp hmem] at hb
      exact hd hb)).strict_of_tight
  · have hfull : denote env (capture (star p)) (r ++ t) kf = _ :=
      capture_eq_some.mpr ⟨kf1, star_eq_some.mpr hf, rfl⟩
    have hwindow : denote env' (capture (star p)) r kw = _ :=
      capture_eq_some.mpr ⟨kw1, star_eq_some.mpr hw, rfl⟩
    have hnone : exists kw2, denote env' (seq (capture (star p)) (lit [d])) r
        kw = (none, kw2) := by
      rw [denote_seq, hwindow]
      exact ⟨_, rfl⟩
    rcases hnone with ⟨kw2, hnone⟩
    rw [hnone, denote_seq, hfull]
    simp only [andThen]
    rcases hlit : denote env (lit [d]) x _ with ⟨_ | ⟨r2, ts2⟩, k2⟩
    · exact Agrees.fails _ kw2
    · rcases lit_eq_some.mp hlit with ⟨rfl, _, _⟩
      have hle := hx.length_le
      simp only [List.singleton_append, List.length_cons] at hle
      exact Agrees.beyond _ _ _ (by change r2.length < t.length; omega)
        (fun h => by cases h) (fun _ => rfl)

/-!
## Expressions that avoid what follows
-/

/-- The captured texts are the same behind the expression, if they are the same
in front of it (`i`). -/
def synced : Bool -> Peg sigma alpha rho -> Bool
  | i, seq p q => synced (synced i p) q
  | i, alt p q => synced i p && synced false q
  | _, star _ => false
  | _, opt _ => false
  | _, capture _ => true
  | i, _ => i

/-- No part of the expression takes a byte of `avoid`, and the captured text
is looked at only where it is the same in both runs. -/
def Avoids (avoid : List UInt8) : Bool -> Peg sigma alpha rho -> Prop
  | _, lit word => forall b, b ∈ avoid -> b ∉ word
  | _, cls member => forall b, b ∈ avoid -> member b = false
  | i, seq p q => Avoids avoid i p ∧ Avoids avoid (synced i p) q
  | i, alt p q => Avoids avoid i p ∧ Avoids avoid false q
  | _, star p => Consumes p ∧ Avoids avoid false p
  | _, opt p => Avoids avoid false p
  | _, notAt _ => False
  | _, capture p => Avoids avoid false p
  | i, check f => i = true ∧ forall text u u', (f text u).1 = (f text u').1
  | i, act f => i = true ∨ forall a b, f a = f b
  | _, call _ => False

theorem windowed_of_avoids {avoid : List UInt8}
    (ht : forall b, t.head? = some b -> b ∈ avoid) (henv' : Shrinks env')
    (p : Peg sigma alpha rho) :
    forall i, Avoids avoid i p ->
      Windowed env env' t Reach.tight i (synced i p) p := by
  induction p with
  | lit word =>
      intro i h
      exact windowed_lit i (fun b hb => h b (ht b hb))
  | cls member =>
      intro i h
      exact windowed_cls i (fun b hb => h b (ht b hb))
  | seq p q ihp ihq =>
      intro i h
      exact windowed_seq_tight (ihp i h.1) (ihq _ h.2)
  | alt p q ihp ihq =>
      intro i h
      refine windowed_alt_tight ((ihp i h.1).weaken (fun hi => hi) ?_)
        ((ihq false h.2).weaken (fun hi => hi) ?_)
      · exact fun hand => (Bool.and_eq_true_iff.mp hand).1
      · exact fun hand => (Bool.and_eq_true_iff.mp hand).2
  | star p ih =>
      intro i h
      exact windowed_star henv' h.1
        ((ih false h.2).weaken (fun hi => hi) (fun ho => by cases ho))
  | opt p ih =>
      intro i h
      exact windowed_opt ((ih false h).weaken (fun hi => by cases hi)
        (fun ho => by cases ho))
  | notAt p _ =>
      intro i h
      cases h
  | capture p ih =>
      intro i h
      exact (windowed_capture (ih false h)).weaken (fun hi => by cases hi)
        (fun ho => ho)
  | check f =>
      intro i h
      rcases h with ⟨rfl, hf⟩
      exact windowed_check hf
  | act f =>
      intro i h
      exact windowed_act i h
  | call rule =>
      intro i h
      cases h

end Peg

end Foundation
end LuaSandbox
