import LuaSandbox.Foundation.Peg.Invariants

/-!
# Running parsing expressions forward

Rules that lead from the text to the outcome.  What is known about the captured
text is a predicate in front of an expression and one behind it.
-/

namespace LuaSandbox
namespace Foundation
namespace Peg

variable {sigma alpha rho : Type}
variable {env : rho -> Parser sigma alpha}
variable {p q : Peg sigma alpha rho}
variable {r r' r1 : List UInt8} {ts ts' : List alpha}
variable {A B C : Kept sigma -> Prop}

/-!
## Triples
-/

/-- From every state in `A` the expression takes `r` to `r'`. -/
def Succeeds (env : rho -> Parser sigma alpha) (p : Peg sigma alpha rho)
    (A : Kept sigma -> Prop) (r r' : List UInt8) (ts : List alpha)
    (B : Kept sigma -> Prop) : Prop :=
  forall k, A k -> exists k', denote env p r k = (some (r', ts), k') ∧ B k'

/-- From every state in `A` the expression fails on `r`. -/
def Fails (env : rho -> Parser sigma alpha) (p : Peg sigma alpha rho)
    (A : Kept sigma -> Prop) (r : List UInt8) : Prop :=
  forall k, A k -> exists k', denote env p r k = (none, k')

def Anything : Kept sigma -> Prop := fun _ => True

def TextIs (s : List UInt8) : Kept sigma -> Prop := fun k => k.text = s

theorem Succeeds.weaken {A' B' : Kept sigma -> Prop}
    (h : Succeeds env p A r r' ts B) (hA : forall k, A' k -> A k)
    (hB : forall k, B k -> B' k) : Succeeds env p A' r r' ts B' := by
  intro k hk
  rcases h k (hA k hk) with ⟨k', hdenote, hk'⟩
  exact ⟨k', hdenote, hB k' hk'⟩

theorem Succeeds.of_anything (h : Succeeds env p Anything r r' ts B) :
    Succeeds env p A r r' ts B :=
  h.weaken (fun _ _ => trivial) (fun _ hk => hk)

theorem Succeeds.anything (h : Succeeds env p A r r' ts B) :
    Succeeds env p A r r' ts Anything :=
  h.weaken (fun _ hk => hk) (fun _ _ => trivial)

theorem Fails.of_anything (h : Fails env p Anything r) : Fails env p A r :=
  fun k _ => h k trivial

/-!
## Successes
-/

theorem succeeds_lit (word : List UInt8) :
    Succeeds env (lit word) A (word ++ r) r [] A :=
  fun k hk => ⟨k, lit_eq_some.mpr ⟨rfl, rfl, rfl⟩, hk⟩

theorem succeeds_cls {member : UInt8 -> Bool} {b : UInt8}
    (h : member b = true) :
    Succeeds env (cls member) A (b :: r) r [] A :=
  fun k hk => ⟨k, cls_eq_some.mpr ⟨⟨b, rfl, h⟩, rfl, rfl⟩, hk⟩

theorem succeeds_seq (hp : Succeeds env p A r r1 ts B)
    (hq : Succeeds env q B r1 r' ts' C) :
    Succeeds env (seq p q) A r r' (ts ++ ts') C := by
  intro k hk
  rcases hp k hk with ⟨k1, hp, hk1⟩
  rcases hq k1 hk1 with ⟨k2, hq, hk2⟩
  exact ⟨k2, seq_eq_some.mpr ⟨r1, ts, k1, ts', hp, hq, rfl⟩, hk2⟩

theorem succeeds_alt_left (hp : Succeeds env p A r r' ts B) :
    Succeeds env (alt p q) A r r' ts B := by
  intro k hk
  rcases hp k hk with ⟨k1, hp, hk1⟩
  exact ⟨k1, alt_eq_some.mpr (Or.inl hp), hk1⟩

theorem succeeds_alt_right (hp : Fails env p A r)
    (hq : Succeeds env q Anything r r' ts B) :
    Succeeds env (alt p q) A r r' ts B := by
  intro k hk
  rcases hp k hk with ⟨k1, hp⟩
  rcases hq k1 trivial with ⟨k2, hq, hk2⟩
  exact ⟨k2, alt_eq_some.mpr (Or.inr ⟨k1, hp, hq⟩), hk2⟩

theorem succeeds_star_cls (member : UInt8 -> Bool) :
    Succeeds env (star (cls member)) A r (r.dropWhile member) [] A :=
  fun k hk => ⟨k, denote_star_cls env member r k, hk⟩

/-- A repetition takes the members and stops in front of another byte. -/
theorem succeeds_star_members {member : UInt8 -> Bool} {s : List UInt8}
    (hs : forall b, b ∈ s -> member b = true)
    (hr : forall b, r.head? = some b -> member b = false) :
    Succeeds env (star (cls member)) A (s ++ r) r [] A := by
  have hdrop : (s ++ r).dropWhile member = r := by
    rw [List.dropWhile_append_of_pos hs]
    cases r with
    | nil => rfl
    | cons b rest =>
        rw [List.dropWhile_cons_of_neg (by simp [hr b rfl])]
  have hstar : Succeeds env (star (cls member)) A (s ++ r) _ [] A :=
    succeeds_star_cls member
  rwa [hdrop] at hstar

theorem succeeds_opt_some (hp : Succeeds env p A r r' ts B) :
    Succeeds env (opt p) A r r' ts B := by
  intro k hk
  rcases hp k hk with ⟨k1, hp, hk1⟩
  exact ⟨k1, opt_eq_some.mpr (Or.inl hp), hk1⟩

theorem succeeds_opt_none (hp : Fails env p A r) :
    Succeeds env (opt p) A r r [] Anything := by
  intro k hk
  rcases hp k hk with ⟨k1, hp⟩
  exact ⟨k1, opt_eq_some.mpr (Or.inr ⟨hp, rfl, rfl⟩), trivial⟩

theorem succeeds_capture {s : List UInt8}
    (hp : Succeeds env p Anything (s ++ r) r ts Anything) :
    Succeeds env (capture p) A (s ++ r) r ts (TextIs s) := by
  intro k _
  rcases hp { k with textBegin := s ++ r } trivial with ⟨k1, hp, -⟩
  refine ⟨_, capture_eq_some.mpr ⟨k1, hp, rfl⟩, ?_⟩
  simp [TextIs, Kept.text]

theorem succeeds_capture_rest
    (hp : Succeeds env p Anything r r' ts Anything) :
    Succeeds env (capture p) A r r' ts Anything := by
  intro k _
  rcases hp { k with textBegin := r } trivial with ⟨k1, hp, -⟩
  exact ⟨_, capture_eq_some.mpr ⟨k1, hp, rfl⟩, trivial⟩

theorem succeeds_act (f : List UInt8 -> alpha) (s : List UInt8) :
    Succeeds env (act f) (TextIs s) r r [f s] (TextIs s) := by
  intro k hk
  refine ⟨k, act_eq_some.mpr ⟨rfl, ?_, rfl⟩, hk⟩
  rw [hk]

theorem succeeds_act_const (a : alpha) :
    Succeeds env (act (fun _ => a)) A r r [a] A :=
  fun k hk => ⟨k, act_eq_some.mpr ⟨rfl, rfl, rfl⟩, hk⟩

theorem succeeds_check {f : List UInt8 -> sigma -> Bool × sigma}
    {s : List UInt8} (h : forall u, (f s u).1 = true) :
    Succeeds env (check f) (TextIs s) r r [] (TextIs s) := by
  intro k hk
  refine ⟨_, check_eq_some.mpr ⟨?_, rfl, rfl, rfl⟩, hk⟩
  rw [hk]
  exact h k.user

theorem succeeds_call {rule : rho} (h : forall k, A k -> exists k',
    env rule r k = (some (r', ts), k') ∧ B k') :
    Succeeds env (call rule) A r r' ts B :=
  h

/-!
## Failures
-/

theorem fails_lit {word : List UInt8} (h : word.isPrefixOf r = false) :
    Fails env (lit word) A r := by
  intro k _
  refine ⟨k, ?_⟩
  simp only [denote, h, Bool.false_eq_true, if_false]

theorem fails_cls {member : UInt8 -> Bool}
    (h : forall b, r.head? = some b -> member b = false) :
    Fails env (cls member) A r := by
  intro k _
  refine ⟨k, ?_⟩
  cases r with
  | nil => rfl
  | cons b rest => simp only [denote, h b rfl, Bool.false_eq_true, if_false]

theorem fails_seq_left (hp : Fails env p A r) :
    Fails env (seq p q) A r := by
  intro k hk
  rcases hp k hk with ⟨k1, hp⟩
  refine ⟨k1, ?_⟩
  simp only [denote, hp]

theorem fails_seq_right (hp : Succeeds env p A r r1 ts B)
    (hq : Fails env q B r1) : Fails env (seq p q) A r := by
  intro k hk
  rcases hp k hk with ⟨k1, hp, hk1⟩
  rcases hq k1 hk1 with ⟨k2, hq⟩
  refine ⟨k2, ?_⟩
  simp only [denote, hp, hq]

theorem fails_alt (hp : Fails env p A r) (hq : Fails env q Anything r) :
    Fails env (alt p q) A r := by
  intro k hk
  rcases hp k hk with ⟨k1, hp⟩
  rcases hq k1 trivial with ⟨k2, hq⟩
  refine ⟨k2, ?_⟩
  simp only [denote, hp, hq]

theorem fails_capture (hp : Fails env p Anything r) :
    Fails env (capture p) A r := by
  intro k _
  rcases hp { k with textBegin := r } trivial with ⟨k1, hp⟩
  refine ⟨k1, ?_⟩
  simp only [denote, hp]

theorem fails_check {f : List UInt8 -> sigma -> Bool × sigma}
    {s : List UInt8} (h : forall u, (f s u).1 = false) :
    Fails env (check f) (TextIs s) r := by
  intro k hk
  have hverdict : (f k.text k.user).1 = false := by
    rw [hk]
    exact h k.user
  refine ⟨{ k with user := (f k.text k.user).2 }, ?_⟩
  simp only [denote, hverdict, Bool.false_eq_true, if_false]

/-- An expression fails in front of a byte that it cannot start with. -/
theorem fails_of_opens {f : UInt8 -> Prop} (hp : Opens f p)
    (hr : forall b, r.head? = some b -> ¬ f b) : Fails env p A r := by
  intro k _
  rcases hdenote : denote env p r k with ⟨_ | ⟨r', ts⟩, k1⟩
  · exact ⟨k1, rfl⟩
  · rcases opens_head p hp hdenote with ⟨b, rest, rfl, hb⟩
    exact absurd hb (hr b rfl)

/-- A negation succeeds where the expression fails. -/
theorem succeeds_notAt (hp : Fails env p A r) :
    Succeeds env (notAt p) A r r [] Anything := by
  intro k hk
  rcases hp k hk with ⟨k1, hp⟩
  exact ⟨k1, notAt_eq_some.mpr ⟨hp, rfl, rfl⟩, trivial⟩

theorem fails_notAt (hp : Succeeds env p A r r' ts B) :
    Fails env (notAt p) A r := by
  intro k hk
  rcases hp k hk with ⟨k1, hp, -⟩
  refine ⟨k1, ?_⟩
  simp only [denote, hp]

/-- Neither word starts the other. -/
def incomparable (w v : List UInt8) : Bool :=
  !w.isPrefixOf v && !v.isPrefixOf w

theorem fails_lit_of_incomparable {w v : List UInt8}
    (h : incomparable w v = true) : Fails env (lit w) A (v ++ r) := by
  rw [incomparable, Bool.and_eq_true, Bool.not_eq_true', Bool.not_eq_true'] at h
  apply fails_lit
  rw [Bool.eq_false_iff]
  intro hprefix
  rw [List.isPrefixOf_iff_prefix] at hprefix
  rcases List.prefix_or_prefix_of_prefix hprefix (List.prefix_append v r) with
    hw | hv
  · rw [← List.isPrefixOf_iff_prefix, h.1] at hw
    cases hw
  · rw [← List.isPrefixOf_iff_prefix, h.2] at hv
    cases hv

/-- The expression fails on every text that starts with the word, and its first
bytes are enough to tell. -/
def rejects (v : List UInt8) : Peg sigma alpha rho -> Bool
  | lit w => incomparable w v
  | cls member => v.head?.any (fun b => !member b)
  | seq p q => rejects v p || (p.isAct && rejects v q)
  | alt p q => rejects v p && rejects v q
  | capture p => rejects v p
  | _ => false

theorem fails_of_rejects {v : List UInt8} (p : Peg sigma alpha rho) :
    forall {A : Kept sigma -> Prop}, rejects v p = true ->
      Fails env p A (v ++ r) := by
  induction p with
  | lit w =>
      intro A h
      exact fails_lit_of_incomparable h
  | cls member =>
      intro A h
      apply fails_cls
      intro b hb
      cases v with
      | nil => cases h
      | cons c v =>
          cases hb
          simpa [rejects] using h
  | seq p q ihp ihq =>
      intro A h
      rw [rejects, Bool.or_eq_true, Bool.and_eq_true] at h
      rcases h with h | ⟨hact, h⟩
      · exact fails_seq_left (ihp h)
      · cases p with
        | act f =>
            intro k _
            rcases ihq (A := Anything) h k trivial with ⟨k1, hq⟩
            refine ⟨k1, ?_⟩
            simp only [denote, hq]
        | _ => cases hact
  | alt p q ihp ihq =>
      intro A h
      rw [rejects, Bool.and_eq_true] at h
      exact fails_alt (ihp h.1) (ihq h.2)
  | capture p ih =>
      intro A h
      exact fails_capture (ih h)
  | star p => intro A h; cases h
  | opt p => intro A h; cases h
  | notAt p => intro A h; cases h
  | check f => intro A h; cases h
  | act f => intro A h; cases h
  | call rule => intro A h; cases h

/-- The expression takes exactly the word in front of every rest, and the word
is enough to tell. -/
def takes (v : List UInt8) : Peg sigma alpha rho -> Bool
  | lit w => w == v
  | cls member => v.length == 1 && v.all member
  | seq p q => (List.range (v.length + 1)).any
      (fun i => takes (v.take i) p && takes (v.drop i) q)
  | alt p q => takes v p || (rejects v p && takes v q)
  | _ => false

theorem succeeds_of_takes (p : Peg sigma alpha rho) :
    forall {v r : List UInt8} {A : Kept sigma -> Prop}, takes v p = true ->
      Succeeds env p A (v ++ r) r [] Anything := by
  induction p with
  | lit w =>
      intro v r A h
      rw [takes, beq_iff_eq] at h
      exact h ▸ (succeeds_lit w).anything
  | cls member =>
      intro v r A h
      rw [takes, Bool.and_eq_true, beq_iff_eq, List.length_eq_one_iff] at h
      rcases h with ⟨⟨b, rfl⟩, hb⟩
      rw [List.all_cons, List.all_nil, Bool.and_true] at hb
      exact (succeeds_cls hb).anything
  | seq p q ihp ihq =>
      intro v r A h
      rw [takes, List.any_eq_true] at h
      rcases h with ⟨i, -, hi⟩
      rw [Bool.and_eq_true] at hi
      have hp : Succeeds env p A (v.take i ++ (v.drop i ++ r))
          (v.drop i ++ r) [] Anything := ihp hi.1
      rw [← List.append_assoc, List.take_append_drop] at hp
      exact succeeds_seq hp (ihq hi.2)
  | alt p q ihp ihq =>
      intro v r A h
      rw [takes, Bool.or_eq_true, Bool.and_eq_true] at h
      rcases h with h | ⟨hp, hq⟩
      · exact succeeds_alt_left (ihp h)
      · exact succeeds_alt_right (fails_of_rejects p hp) (ihq hq)
  | _ =>
      intro v r A h
      cases h

/-- The expression captures exactly the word. -/
def captures (v : List UInt8) : Peg sigma alpha rho -> Bool
  | capture p => takes v p
  | alt p q => captures v p || (rejects v p && captures v q)
  | _ => false

theorem succeeds_of_captures {v : List UInt8} (p : Peg sigma alpha rho) :
    forall {A : Kept sigma -> Prop}, captures v p = true ->
      Succeeds env p A (v ++ r) r [] (TextIs v) := by
  induction p with
  | capture p =>
      intro A h
      exact succeeds_capture (succeeds_of_takes p h)
  | alt p q ihp ihq =>
      intro A h
      rw [captures, Bool.or_eq_true, Bool.and_eq_true] at h
      rcases h with h | ⟨hp, hq⟩
      · exact succeeds_alt_left (ihp h)
      · exact succeeds_alt_right (fails_of_rejects p hp) (ihq hq)
  | _ =>
      intro A h
      cases h

/-!
## Repetition
-/

theorem iterate_chunks {chunks : List (List UInt8)}
    (hstop : Fails env p Anything r) : forall {n : Nat}
    (_ : forall c, c ∈ chunks -> forall r,
      Succeeds env p Anything (c ++ r) r [] Anything)
    (_ : chunks.length < n) (k : Kept sigma),
      exists k', iterate (denote env p) n (chunks.flatten ++ r) k =
        ((r, []), k') := by
  induction chunks with
  | nil =>
      intro n _ hn k
      rcases Nat.exists_eq_succ_of_ne_zero (Nat.ne_zero_of_lt hn) with ⟨n, rfl⟩
      rcases hstop k trivial with ⟨k1, hp⟩
      refine ⟨k1, ?_⟩
      simp only [List.flatten_nil, List.nil_append, iterate, hp]
  | cons c rest ih =>
      intro n hchunks hn k
      rcases Nat.exists_eq_succ_of_ne_zero (Nat.ne_zero_of_lt hn) with ⟨n, rfl⟩
      rcases hchunks c List.mem_cons_self (rest.flatten ++ r) k trivial with
        ⟨k1, hp, -⟩
      rcases ih (fun c hc => hchunks c (List.mem_cons_of_mem _ hc))
        (Nat.lt_of_succ_lt_succ hn) k1 with ⟨k2, hrest⟩
      refine ⟨k2, ?_⟩
      rw [List.flatten_cons, List.append_assoc]
      simp only [iterate, hp, hrest, List.append_nil]

/-- A repetition takes chunk by chunk and stops where a round fails. -/
theorem succeeds_star_chunks {chunks : List (List UInt8)}
    (hchunks : forall c, c ∈ chunks -> forall r,
      Succeeds env p Anything (c ++ r) r [] Anything)
    (hne : forall c, c ∈ chunks -> c ≠ [])
    (hstop : Fails env p Anything r) :
    Succeeds env (star p) A (chunks.flatten ++ r) r [] Anything := by
  have hlength : chunks.length <= chunks.flatten.length := by
    clear hchunks
    induction chunks with
    | nil => exact Nat.le_refl 0
    | cons c rest ih =>
        have hc := List.length_pos_of_ne_nil (hne c List.mem_cons_self)
        have hrest := ih (fun c hc => hne c (List.mem_cons_of_mem _ hc))
        rw [List.flatten_cons, List.length_append, List.length_cons]
        omega
  intro k _
  rcases iterate_chunks hstop hchunks
    (n := (chunks.flatten ++ r).length + 1)
    (by rw [List.length_append]; omega) k with ⟨k1, hiterate⟩
  exact ⟨k1, star_eq_some.mpr hiterate, trivial⟩

end Peg
end Foundation
end LuaSandbox
