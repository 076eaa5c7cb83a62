import LuaSandbox.Foundation.Peg

/-!
# Invariants of parsing expressions

What the parts of an expression tell about the recorded actions and about the
state of the semantic predicates.
-/

namespace LuaSandbox
namespace Foundation
namespace Peg

variable {sigma alpha rho : Type}
variable {env : rho -> Parser sigma alpha}
variable {r : List UInt8} {k : Kept sigma}

/-!
## Parts
-/

/-- The actions, the predicates and the called rules of an expression satisfy
`A`, `F` and `C`. -/
def All (A : (List UInt8 -> alpha) -> Prop)
    (F : (List UInt8 -> sigma -> Bool × sigma) -> Prop) (C : rho -> Prop) :
    Peg sigma alpha rho -> Prop
  | seq p q => All A F C p ∧ All A F C q
  | alt p q => All A F C p ∧ All A F C q
  | star p => All A F C p
  | opt p => All A F C p
  | notAt p => All A F C p
  | capture p => All A F C p
  | check f => F f
  | act f => A f
  | call rule => C rule
  | _ => True

theorem All.imp {A A' : (List UInt8 -> alpha) -> Prop}
    {F F' : (List UInt8 -> sigma -> Bool × sigma) -> Prop}
    {C C' : rho -> Prop} (hA : forall f, A f -> A' f)
    (hF : forall f, F f -> F' f) (hC : forall rule, C rule -> C' rule)
    (p : Peg sigma alpha rho) (h : All A F C p) : All A' F' C' p := by
  induction p with
  | lit word => trivial
  | cls member => trivial
  | seq p q ihp ihq => exact ⟨ihp h.1, ihq h.2⟩
  | alt p q ihp ihq => exact ⟨ihp h.1, ihq h.2⟩
  | star p ih => exact ih h
  | opt p ih => exact ih h
  | notAt p ih => exact ih h
  | capture p ih => exact ih h
  | check f => exact hF f h
  | act f => exact hA f h
  | call rule => exact hC rule h

/-!
## The actions of a success
-/

/--
The action sequences an expression can record, with those of the recursive
rules given by `E`; the input is left out of account.
-/
def Emits (E : rho -> List alpha -> Prop) :
    Peg sigma alpha rho -> List alpha -> Prop
  | lit _, ts => ts = []
  | cls _, ts => ts = []
  | seq p q, ts => exists ts1 ts2, Emits E p ts1 ∧ Emits E q ts2 ∧
      ts = ts1 ++ ts2
  | alt p q, ts => Emits E p ts ∨ Emits E q ts
  | star p, ts => exists parts : List (List alpha),
      (forall part, part ∈ parts -> Emits E p part) ∧ ts = parts.flatten
  | opt p, ts => Emits E p ts ∨ ts = []
  | notAt _, ts => ts = []
  | capture p, ts => Emits E p ts
  | check _, ts => ts = []
  | act f, ts => exists text, ts = [f text]
  | call rule, ts => E rule ts

theorem denote_emits {E : rho -> List alpha -> Prop}
    (henv : forall rule r k x k', env rule r k = (some x, k') -> E rule x.2)
    (p : Peg sigma alpha rho) :
    forall {r k r' ts k'}, denote env p r k = (some (r', ts), k') ->
      Emits E p ts := by
  induction p with
  | lit word =>
      intro r k r' ts k' h
      exact (lit_eq_some.mp h).2.1
  | cls member =>
      intro r k r' ts k' h
      exact (cls_eq_some.mp h).2.1
  | seq p q ihp ihq =>
      intro r k r' ts k' h
      rcases seq_eq_some.mp h with ⟨r1, ts1, k1, ts2, hp, hq, hts⟩
      exact ⟨ts1, ts2, ihp hp, ihq hq, hts⟩
  | alt p q ihp ihq =>
      intro r k r' ts k' h
      rcases alt_eq_some.mp h with hp | ⟨k1, _, hq⟩
      · exact Or.inl (ihp hp)
      · exact Or.inr (ihq hq)
  | star p ih =>
      intro r k r' ts k' h
      have hloop := iterate_induction (f := denote env p)
        (P := fun _ _ _ ts _ => Emits E (star p) ts)
        (fun _ _ _ _ => ⟨[], by simp, rfl⟩)
        (fun _ _ _ ts1 _ _ _ _ hf hrest => by
          rcases hrest with ⟨parts, hparts, rfl⟩
          refine ⟨ts1 :: parts, ?_, rfl⟩
          intro part hmem
          rcases List.mem_cons.mp hmem with rfl | hmem
          · exact ih hf
          · exact hparts part hmem)
        (fun _ _ => ⟨[], by simp, rfl⟩) (r.length + 1) r k
      rw [star_eq_some.mp h] at hloop
      exact hloop
  | opt p ih =>
      intro r k r' ts k' h
      rcases opt_eq_some.mp h with hp | ⟨_, _, hts⟩
      · exact Or.inl (ih hp)
      · exact Or.inr hts
  | notAt p ih =>
      intro r k r' ts k' h
      exact (notAt_eq_some.mp h).2.2
  | capture p ih =>
      intro r k r' ts k' h
      rcases capture_eq_some.mp h with ⟨k1, hp, _⟩
      exact ih hp
  | check f =>
      intro r k r' ts k' h
      exact (check_eq_some.mp h).2.2.1
  | act f =>
      intro r k r' ts k' h
      exact ⟨k.text, (act_eq_some.mp h).2.1⟩
  | call rule =>
      intro r k r' ts k' h
      exact henv rule r k (r', ts) k' h

/-- Every action of an expression satisfies `Q`, and no rule is called. -/
abbrev Actions (Q : alpha -> Prop) (p : Peg sigma alpha rho) : Prop :=
  All (fun f => forall text, Q (f text)) (fun _ => True) (fun _ => False) p

theorem emits_forall {E : rho -> List alpha -> Prop} {Q : alpha -> Prop}
    (p : Peg sigma alpha rho) :
    forall {ts}, Actions Q p -> Emits E p ts -> forall a, a ∈ ts -> Q a := by
  induction p with
  | lit word =>
      intro ts _ h a ha
      rw [h] at ha
      cases ha
  | cls member =>
      intro ts _ h a ha
      rw [h] at ha
      cases ha
  | seq p q ihp ihq =>
      intro ts hall h a ha
      rcases h with ⟨ts1, ts2, hp, hq, rfl⟩
      rcases List.mem_append.mp ha with ha | ha
      · exact ihp hall.1 hp a ha
      · exact ihq hall.2 hq a ha
  | alt p q ihp ihq =>
      intro ts hall h a ha
      rcases h with hp | hq
      · exact ihp hall.1 hp a ha
      · exact ihq hall.2 hq a ha
  | star p ih =>
      intro ts hall h a ha
      rcases h with ⟨parts, hparts, rfl⟩
      rcases List.mem_flatten.mp ha with ⟨part, hmem, ha⟩
      exact ih hall (hparts part hmem) a ha
  | opt p ih =>
      intro ts hall h a ha
      rcases h with hp | rfl
      · exact ih hall hp a ha
      · cases ha
  | notAt p ih =>
      intro ts _ h a ha
      rw [h] at ha
      cases ha
  | capture p ih =>
      intro ts hall h a ha
      exact ih hall h a ha
  | check f =>
      intro ts _ h a ha
      rw [h] at ha
      cases ha
  | act f =>
      intro ts hall h a ha
      rcases h with ⟨text, rfl⟩
      rw [List.mem_singleton.mp ha]
      exact hall text
  | call rule =>
      intro ts hall
      cases hall

/-!
## The first byte
-/

def isAct : Peg sigma alpha rho -> Bool
  | act _ => true
  | _ => false

/-- Every success of the expression starts with a byte that satisfies `f`. -/
def Opens (f : UInt8 -> Prop) : Peg sigma alpha rho -> Prop
  | lit [] => False
  | lit (b :: _) => f b
  | cls member => forall b, member b = true -> f b
  | seq p q => Opens f p ∨ p.isAct = true ∧ Opens f q
  | alt p q => Opens f p ∧ Opens f q
  | capture p => Opens f p
  | _ => False

theorem opens_head {f : UInt8 -> Prop} (p : Peg sigma alpha rho) :
    forall {r k r' ts k'}, Opens f p ->
      denote env p r k = (some (r', ts), k') ->
      exists b rest, r = b :: rest ∧ f b := by
  induction p with
  | lit word =>
      intro r k r' ts k' hopens h
      rcases lit_eq_some.mp h with ⟨rfl, _⟩
      cases word with
      | nil => cases hopens
      | cons b rest => exact ⟨b, rest ++ r', rfl, hopens⟩
  | cls member =>
      intro r k r' ts k' hopens h
      rcases cls_eq_some.mp h with ⟨⟨b, rfl, hb⟩, _⟩
      exact ⟨b, r', rfl, hopens b hb⟩
  | seq p q ihp ihq =>
      intro r k r' ts k' hopens h
      rcases seq_eq_some.mp h with ⟨r1, ts1, k1, ts2, hp, hq, _⟩
      rcases hopens with hopens | ⟨hact, hopens⟩
      · exact ihp hopens hp
      · cases p with
        | act f =>
            rcases act_eq_some.mp hp with ⟨rfl, _, _⟩
            exact ihq hopens hq
        | _ => cases hact
  | alt p q ihp ihq =>
      intro r k r' ts k' hopens h
      rcases alt_eq_some.mp h with hp | ⟨k1, _, hq⟩
      · exact ihp hopens.1 hp
      · exact ihq hopens.2 hq
  | capture p ih =>
      intro r k r' ts k' hopens h
      rcases capture_eq_some.mp h with ⟨k1, hp, _⟩
      exact ih hopens hp
  | _ =>
      intro r k r' ts k' hopens
      cases hopens

/-!
## The state of the predicates
-/

/-- The predicates of an expression change the state along `R` only, and the
rules that it calls satisfy `C`. -/
abbrev Advances (R : sigma -> sigma -> Prop) (C : rho -> Prop)
    (p : Peg sigma alpha rho) : Prop :=
  All (fun _ => True) (fun f => forall text u, R u (f text u).2) C p

theorem denote_advances {R : sigma -> sigma -> Prop} {C : rho -> Prop}
    (hrefl : forall u, R u u)
    (htrans : forall {u1 u2 u3}, R u1 u2 -> R u2 u3 -> R u1 u3)
    (henv : forall rule r k, C rule -> R k.user (env rule r k).2.user)
    (p : Peg sigma alpha rho) :
    forall {r k}, Advances R C p -> R k.user (denote env p r k).2.user := by
  induction p with
  | lit word =>
      intro r k _
      simp only [denote]
      split <;> exact hrefl _
  | cls member =>
      intro r k _
      simp only [denote]
      split
      · exact hrefl _
      · split <;> exact hrefl _
  | seq p q ihp ihq =>
      intro r k h
      have hp := ihp (r := r) (k := k) h.1
      simp only [denote]
      split
      · rename_i k1 hcase
        rw [hcase] at hp
        exact hp
      · rename_i r1 ts1 k1 hcase
        rw [hcase] at hp
        have hq := ihq (r := r1) (k := k1) h.2
        split <;> rename_i hcase' <;> rw [hcase'] at hq <;>
          exact htrans hp hq
  | alt p q ihp ihq =>
      intro r k h
      have hp := ihp (r := r) (k := k) h.1
      simp only [denote]
      split
      · rename_i k1 hcase
        rw [hcase] at hp
        exact htrans hp (ihq h.2)
      · rename_i x k1 hcase
        rw [hcase] at hp
        exact hp
  | star p ih =>
      intro r k h
      exact iterate_induction (f := denote env p)
        (P := fun _ k _ _ k' => R k.user k'.user)
        (fun r k k1 hf => by
          have := ih (r := r) (k := k) h
          rw [hf] at this
          exact this)
        (fun r k r1 ts1 k1 _ _ _ hf hrest => by
          have := ih (r := r) (k := k) h
          rw [hf] at this
          exact htrans this hrest)
        (fun _ _ => hrefl _) (r.length + 1) r k
  | opt p ih =>
      intro r k h
      have hp := ih (r := r) (k := k) h
      simp only [denote]
      split <;> rename_i hcase <;> rw [hcase] at hp <;> exact hp
  | notAt p ih =>
      intro r k h
      have hp := ih (r := r) (k := k) h
      simp only [denote]
      split <;> rename_i hcase <;> rw [hcase] at hp <;> exact hp
  | capture p ih =>
      intro r k h
      have hp := ih (r := r) (k := { k with textBegin := r }) h
      simp only [denote]
      split <;> rename_i hcase <;> rw [hcase] at hp <;> exact hp
  | check f =>
      intro r k h
      exact h k.text k.user
  | act f =>
      intro r k _
      exact hrefl _
  | call rule =>
      intro r k h
      exact henv rule r k h

/-- No predicate of an expression changes the state. -/
abbrev Quiet (p : Peg sigma alpha rho) : Prop :=
  Advances Eq (fun _ => False) p

theorem denote_user (p : Peg sigma alpha rho) (h : Quiet p) :
    (denote env p r k).2.user = k.user :=
  (denote_advances (fun _ => rfl) Eq.trans (fun _ _ _ hcall => hcall.elim)
    p h).symm

theorem parse_advances {R : sigma -> sigma -> Prop}
    {grammar : rho -> Peg sigma alpha rho} (hrefl : forall u, R u u)
    (htrans : forall {u1 u2 u3}, R u1 u2 -> R u2 u3 -> R u1 u3)
    (hgrammar : forall rule, Advances R (fun _ => True) (grammar rule)) :
    forall n rule r k, R k.user (parse grammar n rule r k).2.user
  | 0, _, _, _ => hrefl _
  | n + 1, rule, _, _ =>
      denote_advances hrefl htrans
        (fun rule r k _ => parse_advances hrefl htrans hgrammar n rule r k)
        (grammar rule) (hgrammar rule)

end Peg

end Foundation
end LuaSandbox
