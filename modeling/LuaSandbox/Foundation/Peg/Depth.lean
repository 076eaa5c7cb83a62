import LuaSandbox.Foundation.Peg.Invariants

/-!
# The depth of recursion

A grammar whose rules call each other only behind consumed input nests no
deeper than its input is long.
-/

namespace LuaSandbox
namespace Foundation
namespace Peg

variable {sigma alpha rho : Type}
variable {env : rho -> Parser sigma alpha}

/-- A success of the expression takes at least one byte. -/
def Consumes : Peg sigma alpha rho -> Prop
  | lit word => word ≠ []
  | cls _ => True
  | seq p q => Consumes p ∨ Consumes q
  | alt p q => Consumes p ∧ Consumes q
  | capture p => Consumes p
  | _ => False

/-- The recursive rules are called behind at least one byte. -/
def Guarded : Peg sigma alpha rho -> Prop
  | seq p q => Guarded p ∧ (Consumes p ∨ Guarded q)
  | alt p q => Guarded p ∧ Guarded q
  | star p => Guarded p
  | opt p => Guarded p
  | notAt p => Guarded p
  | capture p => Guarded p
  | call _ => False
  | _ => True

/-- An expression without calls is guarded. -/
theorem guarded_of_all {A : (List UInt8 -> alpha) -> Prop}
    {F : (List UInt8 -> sigma -> Bool × sigma) -> Prop} {C : rho -> Prop}
    (hC : forall rule, C rule -> False) (p : Peg sigma alpha rho)
    (h : All A F C p) : Guarded p := by
  induction p with
  | seq p q ihp ihq => exact ⟨ihp h.1, Or.inr (ihq h.2)⟩
  | alt p q ihp ihq => exact ⟨ihp h.1, ihq h.2⟩
  | star p ih => exact ih h
  | opt p ih => exact ih h
  | notAt p ih => exact ih h
  | capture p ih => exact ih h
  | call rule => exact hC rule h
  | _ => trivial

theorem denote_consumes (henv : Shrinks env) (p : Peg sigma alpha rho) :
    forall {r k r' ts k'}, Consumes p ->
      denote env p r k = (some (r', ts), k') -> r'.length < r.length := by
  induction p with
  | lit word =>
      intro r k r' ts k' hne h
      rcases lit_eq_some.mp h with ⟨rfl, _⟩
      have := List.length_pos_of_ne_nil hne
      simp only [List.length_append]
      omega
  | cls member =>
      intro r k r' ts k' _ h
      rcases cls_eq_some.mp h with ⟨⟨b, rfl, _⟩, _⟩
      simp
  | seq p q ihp ihq =>
      intro r k r' ts k' hseq h
      rcases seq_eq_some.mp h with ⟨r1, ts1, k1, ts2, hp, hq, _⟩
      have hle1 := (denote_suffix henv p hp).length_le
      have hle2 := (denote_suffix henv q hq).length_le
      rcases hseq with hcons | hcons
      · have := ihp hcons hp
        omega
      · have := ihq hcons hq
        omega
  | alt p q ihp ihq =>
      intro r k r' ts k' halt h
      rcases alt_eq_some.mp h with hp | ⟨k1, _, hq⟩
      · exact ihp halt.1 hp
      · exact ihq halt.2 hq
  | capture p ih =>
      intro r k r' ts k' hcons h
      rcases capture_eq_some.mp h with ⟨k1, hp, _⟩
      exact ih hcons hp
  | _ =>
      intro r k r' ts k' hcons
      cases hcons

theorem denote_nil_of_consumes (henv : Shrinks env) {p : Peg sigma alpha rho}
    (h : Consumes p) (k : Kept sigma) : exists k', denote env p [] k = (none, k') := by
  rcases hcase : denote env p [] k with ⟨_ | ⟨r', ts⟩, k'⟩
  · exact ⟨k', rfl⟩
  · cases denote_consumes henv p h hcase

theorem denote_star_nil (henv : Shrinks env) {p : Peg sigma alpha rho}
    (h : Consumes p) (k : Kept sigma) :
    exists k', denote env (star p) [] k = (some ([], []), k') := by
  rcases denote_nil_of_consumes henv h k with ⟨k', hnone⟩
  refine ⟨k', star_eq_some.mpr ?_⟩
  simp only [iterate, hnone]

theorem iterate_congr {f g : Parser sigma alpha} {r0 : List UInt8}
    (hf : forall r k x k', f r k = (some x, k') -> x.1 <:+ r)
    (h : forall r k, r <:+ r0 -> f r k = g r k) (n : Nat) :
    forall r k, r <:+ r0 -> iterate f n r k = iterate g n r k := by
  induction n with
  | zero =>
      intro r k _
      rfl
  | succ n ih =>
      intro r k hr
      rw [iterate, iterate, ← h r k hr]
      rcases hcase : f r k with ⟨_ | ⟨r1, ts1⟩, k1⟩
      · rfl
      · simp only
        rw [ih r1 k1 ((hf r k _ k1 hcase).trans hr)]

/-- Only the calls on suffixes of the input matter, and only those on shorter
ones if the expression is guarded. -/
theorem denote_congr {env' : rho -> Parser sigma alpha} (henv : Shrinks env)
    (p : Peg sigma alpha rho) :
    forall {r k},
      (forall rule r1 k1, r1 <:+ r -> r1.length < r.length ∨ ¬ Guarded p ->
        env rule r1 k1 = env' rule r1 k1) ->
      denote env p r k = denote env' p r k := by
  induction p with
  | lit word =>
      intro r k _
      rfl
  | cls member =>
      intro r k _
      rfl
  | seq p q ihp ihq =>
      intro r k h
      have hp : denote env p r k = denote env' p r k := by
        refine ihp (fun rule r1 k1 hr1 hcall => h rule r1 k1 hr1 ?_)
        exact hcall.imp_right (fun hnot hseq => hnot hseq.1)
      simp only [denote, ← hp]
      rcases hcase : denote env p r k with ⟨_ | ⟨r1, ts1⟩, k1⟩
      · rfl
      · have hsuffix := denote_suffix henv p hcase
        have hq : denote env q r1 k1 = denote env' q r1 k1 := by
          refine ihq (fun rule r2 k2 hr2 hcall =>
            h rule r2 k2 (hr2.trans hsuffix) ?_)
          have hle := hsuffix.length_le
          rcases hcall with hlt | hnot
          · exact Or.inl (by omega)
          · by_cases hcons : Consumes p
            · have := denote_consumes henv p hcons hcase
              have := hr2.length_le
              exact Or.inl (by omega)
            · exact Or.inr (fun hseq => hseq.2.elim hcons hnot)
        simp only [hq]
  | alt p q ihp ihq =>
      intro r k h
      have hp : denote env p r k = denote env' p r k :=
        ihp (fun rule r1 k1 hr1 hcall => h rule r1 k1 hr1
          (hcall.imp_right (fun hnot halt => hnot halt.1)))
      have hq : forall k1, denote env q r k1 = denote env' q r k1 :=
        fun k1 => ihq (fun rule r1 k1 hr1 hcall => h rule r1 k1 hr1
          (hcall.imp_right (fun hnot halt => hnot halt.2)))
      simp only [denote, ← hp, hq]
  | star p ih =>
      intro r k h
      have hloop := iterate_congr (f := denote env p) (g := denote env' p)
        (fun r1 k1 x k' hf => denote_suffix henv p hf)
        (fun r1 k1 hr1 => ih (fun rule r2 k2 hr2 hcall =>
          h rule r2 k2 (hr2.trans hr1)
            (hcall.imp_left (fun hlt => by
              have := hr1.length_le
              omega))))
        (r.length + 1) r k (List.suffix_refl r)
      simp only [denote, hloop]
  | opt p ih =>
      intro r k h
      simp only [denote, ih h]
  | notAt p ih =>
      intro r k h
      simp only [denote, ih h]
  | capture p ih =>
      intro r k h
      simp only [denote]
      rw [ih (k := { k with textBegin := r }) h]
  | check f =>
      intro r k _
      rfl
  | act f =>
      intro r k _
      rfl
  | call rule =>
      intro r k h
      exact h rule r k (List.suffix_refl r) (Or.inr (fun hguard => hguard))

/-- A grammar whose rules call each other behind at least one byte nests no
deeper than the input is long. -/
theorem parse_depth {grammar : rho -> Peg sigma alpha rho}
    (hgrammar : forall rule, Guarded (grammar rule)) :
    forall {n m : Nat} {rule : rho} {r : List UInt8} {k : Kept sigma},
      r.length < n -> r.length < m ->
      parse grammar n rule r k = parse grammar m rule r k
  | n + 1, m + 1, rule, r, k, hn, hm => by
      refine denote_congr (parse_shrinks grammar n) (grammar rule) ?_
      intro rule' r1 k1 _ hcall
      have hlt : r1.length < r.length :=
        hcall.resolve_right (fun hnot => hnot (hgrammar rule))
      exact parse_depth hgrammar (by omega) (by omega)

end Peg

end Foundation
end LuaSandbox
