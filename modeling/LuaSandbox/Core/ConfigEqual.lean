import Mathlib.Data.List.TakeWhile
import LuaSandbox.Core.ConfigCopy

/-!
# The copied configuration

What a copy of the configuration holds: the entries that are copied, under the
keys that are kept, in tables of its own.
-/

namespace LuaSandbox
namespace Core

open Foundation Lua

/-!
## Keys

A string key is cut off at its first NUL and a number is converted to an
`int`; the keys that survive both are the ones that a copy can have.
-/

def IsKept : Value -> Prop
  | Value.string k => 0 ∉ k
  | Value.number d => exists i : Int, intMin <= i ∧ i <= intMax ∧
      d.value = Double.Value.fin i
  | _ => False

def KeysKept (cfg : Nat -> RawTable) (t : Nat) : Prop :=
  forall n u, Nested cfg t n u -> forall e, e ∈ (cfg u).entries ->
    IsCopied e -> IsKept e.1

theorem IsKept.of_rawequal {k k' : Value} (h : IsKept k)
    (heq : rawequal k k' = true) : IsKept k' := by
  by_cases hnumber : k.type = LuaType.number
  · cases k <;> cases hnumber
    rename_i a
    rcases rawequal_number.mp heq with ⟨b, rfl, hab, _⟩
    rcases h with ⟨i, hlow, hhigh, hi⟩
    exact ⟨i, hlow, hhigh, hab.symm.trans hi⟩
  · rw [(rawequal_of_ne_number hnumber).mp heq] at h
    exact h

theorem takeWhile_of_not_mem {k : List UInt8} (h : 0 ∉ k) :
    k.takeWhile (fun b => b ≠ 0) = k := by
  apply List.takeWhile_eq_self_iff.mpr
  intro b hb
  apply decide_eq_true
  rintro rfl
  exact h hb

theorem toLongLong_of_value {d : Double} {i : Int} (hlow : intMin <= i)
    (hhigh : i <= intMax) (h : d.value = Double.Value.fin i) :
    d.toLongLong = i := by
  unfold intMin at hlow
  unfold intMax at hhigh
  unfold Double.toLongLong
  rw [Double.truncate_of_value h]
  exact if_pos (by omega)

/-- A key is converted to one that is kept; a key that is kept stays the same
key. -/
theorem setKey_eq {key : Value} (hkey : IsKey key) :
    exists (key' : Value) (h : IsTableKey key'), IsKept key' ∧
      (IsKept key -> rawequal key' key = true) ∧
      forall (sb : SandboxTables) (t : Nat) (v : Value),
        sb.setKey t key v = sb.update t (fun T => T.rawset key' v h) := by
  cases key with
  | string k =>
      refine ⟨_, isTableKey_string (k.takeWhile (fun b => b ≠ 0)), ?_, ?_,
        fun _ _ _ => rfl⟩
      · intro hmem
        have hne := List.mem_takeWhile_imp hmem
        exact absurd rfl (of_decide_eq_true hne)
      · intro hkept
        rw [takeWhile_of_not_mem hkept]
        exact decide_eq_true rfl
  | number d =>
      refine ⟨_, isTableKey_integer d.toLongLong, ?_, ?_, fun _ _ _ => rfl⟩
      · exact ⟨_, intMin_le_toInt _, toInt_le_intMax _,
          value_integer_toInt _⟩
      · rintro ⟨i, hlow, hhigh, hi⟩
        have hvalue := value_integer_toInt d.toLongLong
        rw [toLongLong_of_value hlow hhigh hi, toInt_of_range hlow hhigh]
          at hvalue ⊢
        change Double.Value.eq _ _ = true
        rw [hvalue, hi]
        exact beq_self_eq_true _
  | _ => rcases hkey with h | h <;> cases h

/-!
## Copies

A copy is equal to its table where every entry that is copied is read from it
under the same key, and nothing else is.
-/

/-- Equality of a value of the configuration with one of the sandbox. -/
inductive Equal (cfg tables : Nat -> RawTable) : Value -> Value -> Prop where
  | scalar {v : Value} (h : IsScalar v) : Equal cfg tables v v
  | table {t a : Nat}
      (h : forall e, e ∈ (cfg t).entries -> IsCopied e ->
        Equal cfg tables e.2 ((tables a).rawget e.1))
      (honly : forall k, (tables a).rawget k ≠ Value.nil ->
        exists e, e ∈ (cfg t).entries ∧ IsCopied e ∧
          rawequal e.1 k = true) :
      Equal cfg tables (Value.table t) (Value.table a)

/-- What a copy looks like: its keys are kept ones and its tables are newer. -/
def Tidy (sb : SandboxTables) (x : Nat) : Prop :=
  forall e, e ∈ (sb.tables x).entries -> IsKept e.1 ∧
    forall y, e.2 = Value.table y -> x < y ∧ y < sb.fresh

/-- The value `w` is made for the value `v` without a change to what is
there. -/
structure Made (cfg : Nat -> RawTable) (sb sb' : SandboxTables)
    (v w : Value) : Prop where
  fresh_le : sb.fresh <= sb'.fresh
  frame : forall x, x < sb.fresh -> sb'.tables x = sb.tables x
  tidy : forall x, sb.fresh <= x -> x < sb'.fresh -> Tidy sb' x
  new : forall y, w = Value.table y -> sb.fresh <= y ∧ y < sb'.fresh
  equal : (forall t, v = Value.table t -> KeysKept cfg t) ->
    Equal cfg sb'.tables v w

section

variable {cfg tables tables' : Nat -> RawTable} {sb sb' : SandboxTables}
variable {v w key : Value} {t : Nat}

/-- The keys of a table are kept with those of the tables in it. -/
theorem KeysKept.inside {u : Nat} (h : KeysKept cfg t)
    (he : (key, Value.table u) ∈ (cfg t).entries) (hkey : IsKey key) :
    KeysKept cfg u := by
  intro n v hnested
  exact h (n + 1) v (nested_succ.mpr ⟨key, u, he, hkey, hnested⟩)

theorem Equal.ne_nil (h : Equal cfg tables v w) : w ≠ Value.nil := by
  cases h with
  | scalar h =>
      rintro rfl
      exact not_isScalar_nil h
  | table h _ => nofun

/-- What happens outside a range of addresses does not matter to the copies in
it. -/
theorem Equal.frame {lo hi : Nat} (h : Equal cfg tables v w)
    (hsame : forall x, lo <= x -> x < hi -> tables' x = tables x)
    (hinside : forall x, lo <= x -> x < hi ->
      forall e, e ∈ (tables x).entries ->
        forall y, e.2 = Value.table y -> lo <= y ∧ y < hi)
    (hw : forall y, w = Value.table y -> lo <= y ∧ y < hi) :
    Equal cfg tables' v w := by
  induction h with
  | scalar h => exact Equal.scalar h
  | table h honly ih =>
      rename_i t a
      rcases hw a rfl with ⟨hlow, hhigh⟩
      apply Equal.table
      · intro e he hcopied
        rw [hsame a hlow hhigh]
        apply ih e he hcopied
        intro y hy
        rcases rawlookup_mem (h e he hcopied).ne_nil with ⟨k, hmem, _⟩
        exact hinside a hlow hhigh _ hmem y hy
      · rw [hsame a hlow hhigh]
        exact honly

theorem Equal.frame_tidy (h : Equal cfg sb.tables v w) (lo : Nat)
    (htidy : forall x, lo <= x -> x < sb.fresh -> Tidy sb x)
    (hw : forall y, w = Value.table y -> lo <= y ∧ y < sb.fresh)
    (hsame : forall x, lo <= x -> x < sb.fresh ->
      tables' x = sb.tables x) : Equal cfg tables' v w := by
  apply h.frame hsame
  · intro x hlow hhigh e he y hy
    rcases (htidy x hlow hhigh e he).2 y hy with ⟨hlt, hlt'⟩
    omega
  · exact hw

theorem made_scalar (h : IsScalar v) : Made cfg sb sb v v where
  fresh_le := Nat.le_refl _
  frame := fun _ _ => rfl
  tidy := fun x hlow hhigh => absurd hhigh (by omega)
  new := by
    rintro y rfl
    exact absurd h (not_isScalar_table y)
  equal := fun _ => Equal.scalar h

end

/-!
## The loop

The table at `sb.fresh` takes the entries that are done.
-/

structure Filling (cfg : Nat -> RawTable) (t : Nat) (sb : SandboxTables)
    (done : List (Value × Value)) (sb' : SandboxTables) : Prop where
  fresh_lt : sb.fresh < sb'.fresh
  frame : forall x, x < sb.fresh -> sb'.tables x = sb.tables x
  tidy : forall x, sb.fresh <= x -> x < sb'.fresh -> Tidy sb' x
  equal : KeysKept cfg t -> forall e, e ∈ done -> IsCopied e ->
    Equal cfg sb'.tables e.2 ((sb'.tables sb.fresh).rawget e.1)
  only : KeysKept cfg t -> forall k,
    (sb'.tables sb.fresh).rawget k ≠ Value.nil ->
      exists e, e ∈ done ∧ IsCopied e ∧ rawequal e.1 k = true

section

variable {cfg : Nat -> RawTable} {t : Nat} {sb sb₁ sb₂ : SandboxTables}
variable {done rest : List (Value × Value)} {e : Value × Value} {w : Value}

theorem filling_newtable : Filling cfg t sb [] sb.newtable where
  fresh_lt := Nat.lt_succ_self _
  frame := by
    intro x hx
    exact if_neg (by omega)
  tidy := by
    intro x hlow hhigh e he
    change x < sb.fresh + 1 at hhigh
    have hsame : sb.newtable.tables x = RawTable.empty :=
      if_pos (by omega)
    rw [hsame] at he
    exact absurd he List.not_mem_nil
  equal := fun _ e he => absurd he List.not_mem_nil
  only := by
    intro _ k hk
    have hsame : sb.newtable.tables sb.fresh = RawTable.empty := if_pos rfl
    rw [hsame] at hk
    exact absurd rfl hk

theorem Filling.skip (h : Filling cfg t sb done sb₁) (he : ¬ IsCopied e) :
    Filling cfg t sb (done ++ [e]) sb₁ where
  fresh_lt := h.fresh_lt
  frame := h.frame
  tidy := h.tidy
  equal := by
    intro hkept e' he' hcopied
    rcases List.mem_append.mp he' with hdone | hlast
    · exact h.equal hkept e' hdone hcopied
    · rw [List.mem_singleton.mp hlast] at hcopied
      exact absurd hcopied he
  only := by
    intro hkept k hk
    rcases h.only hkept k hk with ⟨e', he', hcopied⟩
    exact ⟨e', List.mem_append_left _ he', hcopied⟩

/-- The step: the value that is made for an entry goes under its key. -/
theorem Filling.set (h : Filling cfg t sb done sb₁)
    (hlive : live (cfg t).entries = done ++ e :: rest) (hcopied : IsCopied e)
    (hmade : Made cfg sb₁ sb₂ e.2 w) :
    Filling cfg t sb (done ++ [e]) (sb₂.setKey sb.fresh e.1 w) := by
  have hkey := hcopied.1
  rcases setKey_eq hkey with ⟨key, htable, hkept, hsame, hset⟩
  have hle := hmade.fresh_le
  have hlt := h.fresh_lt
  have hold : forall x, x < sb₁.fresh -> sb₂.tables x = sb₁.tables x :=
    hmade.frame
  have hother : forall x, x ≠ sb.fresh ->
      (sb₂.setKey sb.fresh e.1 w).tables x = sb₂.tables x := by
    intro x hx
    rw [hset]
    exact if_neg hx
  have hthis : (sb₂.setKey sb.fresh e.1 w).tables sb.fresh =
      (sb₁.tables sb.fresh).rawset key w htable := by
    rw [hset, ← hold sb.fresh hlt]
    exact if_pos rfl
  have hget : forall k,
      ((sb₂.setKey sb.fresh e.1 w).tables sb.fresh).rawget k =
        if rawequal key k then w
        else (sb₁.tables sb.fresh).rawget k := by
    intro k
    rw [hthis, RawTable.rawget_rawset]
  have hin : e ∈ (cfg t).entries := by
    apply (mem_live.mp _).1
    rw [hlive]
    exact List.mem_append_right _ List.mem_cons_self
  have hfresh : (sb₂.setKey sb.fresh e.1 w).fresh = sb₂.fresh := by
    rw [hset]
    rfl
  have htidy : forall x, sb.fresh <= x -> x < sb₂.fresh -> Tidy sb₂ x := by
    intro x hlow hhigh
    by_cases hx : x < sb₁.fresh
    · intro e' he'
      rw [hold x hx] at he'
      rcases h.tidy x hlow hx e' he' with ⟨hk, hnewer⟩
      refine ⟨hk, fun y hy => ?_⟩
      rcases hnewer y hy with ⟨h1, h2⟩
      exact ⟨h1, by omega⟩
    · exact hmade.tidy x (by omega) hhigh
  refine ⟨by omega, ?_, ?_, ?_, ?_⟩
  · intro x hx
    rw [hother x (by omega), hold x (by omega), h.frame x hx]
  · intro x hlow hhigh
    rw [hfresh] at hhigh
    by_cases hx : x = sb.fresh
    · subst hx
      intro e' he'
      rw [hthis] at he'
      rw [hfresh]
      have hnew : forall y, w = Value.table y ->
          sb.fresh < y ∧ y < sb₂.fresh := by
        intro y hy
        rcases hmade.new y hy with ⟨h1, h2⟩
        exact ⟨by omega, h2⟩
      rcases mem_rawassign he' with ⟨h1, h2⟩ | ⟨e₀, hmem, h1, h2⟩
      · rw [h1, h2]
        exact ⟨hkept, hnew⟩
      · rw [h1]
        rw [← hold sb.fresh hlt] at hmem
        rcases htidy sb.fresh (Nat.le_refl _) hhigh e₀ hmem with
          ⟨hk, hnewer⟩
        refine ⟨hk, ?_⟩
        rcases h2 with h2 | h2
        · rw [h2]
          exact hnewer
        · rw [h2]
          exact hnew
    · intro e' he'
      rw [hother x hx] at he'
      rw [hfresh]
      exact htidy x hlow hhigh e' he'
  · intro hkeys e' he' hcopied'
    have hkept' : IsKept e.1 := hkeys 0 t Nested.here e hin hcopied
    rw [hget]
    rcases List.mem_append.mp he' with hdone | hlast
    · -- another key of the configuration is another key of the copy
      have hdistinct : rawequal e'.1 e.1 = false := by
        have hpairs := (cfg t).keys_distinct.filter
          (fun e => e.2 ≠ Value.nil)
        change (live (cfg t).entries).Pairwise _ at hpairs
        rw [hlive] at hpairs
        exact (List.pairwise_append.mp hpairs).2.2 e' hdone e
          List.mem_cons_self
      have hne : ¬ rawequal key e'.1 = true := by
        intro hsame'
        have hboth := rawequal_trans
          ((rawequal_comm e'.1 key).trans hsame') (hsame hkept')
        rw [hdistinct] at hboth
        cases hboth
      rw [if_neg hne]
      have hequal := h.equal hkeys e' hdone hcopied'
      apply hequal.frame_tidy (sb.fresh + 1)
      · intro x hlow hhigh
        exact h.tidy x (by omega) hhigh
      · intro y hy
        rcases rawlookup_mem hequal.ne_nil with ⟨k, hmem', _⟩
        exact (h.tidy sb.fresh (Nat.le_refl _) hlt _ hmem').2 y hy
      · intro x hlow hhigh
        rw [hother x (by omega), hold x hhigh]
    · rw [List.mem_singleton.mp hlast, if_pos (hsame hkept')]
      have hequal := hmade.equal (by
        intro u hu
        have hin' : (e.1, Value.table u) ∈ (cfg t).entries := by
          rw [← hu]
          exact hin
        exact hkeys.inside hin' hkey)
      apply hequal.frame_tidy sb₁.fresh
      · intro x hlow hhigh
        exact hmade.tidy x hlow hhigh
      · exact hmade.new
      · intro x hlow hhigh
        exact hother x (by omega)
  · intro hkeys k hk
    have hkept' : IsKept e.1 := hkeys 0 t Nested.here e hin hcopied
    rw [hget] at hk
    split at hk
    · rename_i hsame'
      have hboth := rawequal_trans
        ((rawequal_comm e.1 key).trans (hsame hkept')) hsame'
      exact ⟨e, List.mem_append_right _ List.mem_cons_self, hcopied, hboth⟩
    · rcases h.only hkeys k hk with ⟨e', he', hcopied'⟩
      exact ⟨e', List.mem_append_left _ he', hcopied'⟩

end

/-!
## Runs
-/

section

variable {cfg : Nat -> RawTable}

theorem copyEntry_made {c s a : Nat} {e : Value × Value}
    {sb sb' : SandboxTables}
    (hnested : forall key parent u sb r,
      copyTable cfg c s key parent u sb = Except.ok r ->
        exists sb₁, Made cfg sb sb₁ (Value.table u) (Value.table r.1) ∧
          r.2 = sb₁.setKey parent key (Value.table r.1))
    (h : copyEntry (copyTable cfg c s) s a sb e = Except.ok sb') :
    (¬ IsCopied e ∧ sb' = sb) ∨
      (IsCopied e ∧ exists sb₁ w, Made cfg sb sb₁ e.2 w ∧
        sb' = sb₁.setKey a e.1 w) := by
  rcases copyEntry_cases e (copyTable cfg c s) s a sb with
    ⟨hskip, hturn⟩ | ⟨hkey, hscalar, hturn⟩ | ⟨hkey, u, hu, hturn⟩
  · rw [hturn] at h
    cases h
    exact Or.inl ⟨hskip, rfl⟩
  · rw [hturn] at h
    split at h
    · cases h
    · cases h
      exact Or.inr ⟨⟨hkey, Or.inl hscalar⟩, sb, e.2, made_scalar hscalar, rfl⟩
  · rw [hturn] at h
    cases hrun : copyTable cfg c s e.1 a u sb with
    | error stop =>
        rw [hrun] at h
        cases h
    | ok r =>
        rw [hrun] at h
        cases h
        rcases hnested e.1 a u sb r hrun with ⟨sb₁, hmade, hset⟩
        refine Or.inr ⟨⟨hkey, Or.inr ⟨u, hu⟩⟩, sb₁, Value.table r.1, ?_, hset⟩
        rw [hu]
        exact hmade

/-- A filled table is a copy. -/
theorem Filling.made {t : Nat} {sb sb₁ : SandboxTables}
    (h : Filling cfg t sb (live (cfg t).entries) sb₁) :
    Made cfg sb sb₁ (Value.table t) (Value.table sb.fresh) where
  fresh_le := Nat.le_of_lt h.fresh_lt
  frame := h.frame
  tidy := h.tidy
  new := by
    rintro y ⟨⟩
    exact ⟨Nat.le_refl _, h.fresh_lt⟩
  equal := by
    intro hkeys
    apply Equal.table
    · intro e he hcopied
      apply h.equal (hkeys t rfl) e _ hcopied
      apply mem_live.mpr
      refine ⟨he, ?_⟩
      intro hnil
      rcases hcopied.2 with hscalar | ⟨u, hu⟩
      · rw [hnil] at hscalar
        exact not_isScalar_nil hscalar
      · rw [hnil] at hu
        cases hu
    · intro k hk
      rcases h.only (hkeys t rfl) k hk with ⟨e, he, hcopied⟩
      exact ⟨e, (mem_live.mp he).1, hcopied⟩

/-- All that a run does: a new table is made, and it goes under the key. -/
theorem copyTable_made (c s : Nat) (key : Value) (parent t : Nat)
    (sb : SandboxTables) (r : Nat × SandboxTables)
    (h : copyTable cfg c s key parent t sb = Except.ok r) :
    exists sb₁, Made cfg sb sb₁ (Value.table t) (Value.table r.1) ∧
      r.2 = sb₁.setKey parent key (Value.table r.1) := by
  induction c using Nat.twoStepInduction generalizing s key parent t sb r with
  | zero =>
      cases s <;> cases h
  | one =>
      cases s with
      | zero => cases h
      | succ s =>
          unfold copyTable at h
          split at h
          · rename_i hlive
            cases h
            have hfilled : Filling cfg t sb (live (cfg t).entries)
                sb.newtable := by
              rw [hlive]
              exact filling_newtable
            exact ⟨sb.newtable, hfilled.made, rfl⟩
          · cases h
  | more c ih _ =>
      cases s with
      | zero => cases h
      | succ s =>
          unfold copyTable at h
          rcases except_bind_ok.mp h with ⟨sb₁, hrun, hresult⟩
          cases hresult
          have hfilled : Filling cfg t sb (live (cfg t).entries) sb₁ := by
            apply foldlM_invariant (Filling cfg t sb) _ filling_newtable hrun
            intro done e rest sb₂ sb₃ hlive hfilling hstep
            rcases copyEntry_made (ih s) hstep with
              ⟨hskip, rfl⟩ | ⟨hcopied, sb₄, w, hmade, rfl⟩
            · exact hfilling.skip hskip
            · exact hfilling.set hlive hcopied hmade
          exact ⟨sb₁, hfilled.made, rfl⟩

/-- What is read under every key was stored under a key that is kept. -/
theorem Equal.keysKept {sb sb' : SandboxTables} {t a : Nat}
    (h : Equal cfg sb'.tables (Value.table t) (Value.table a))
    (hlow : sb.fresh <= a) (hhigh : a < sb'.fresh)
    (htidy : forall x, sb.fresh <= x -> x < sb'.fresh -> Tidy sb' x) :
    KeysKept cfg t := by
  have hread : forall {u b : Nat}, sb.fresh <= b -> b < sb'.fresh ->
      Equal cfg sb'.tables (Value.table u) (Value.table b) ->
      forall e, e ∈ (cfg u).entries -> IsCopied e -> IsKept e.1 := by
    intro u b hb hb' hequal e he hcopied
    rcases hequal with ⟨hscalar⟩ | ⟨hentries, _⟩
    · exact absurd hscalar (not_isScalar_table _)
    · rcases rawlookup_mem (hentries e he hcopied).ne_nil with
        ⟨k, hmem, hk⟩
      exact ((htidy b hb hb' _ hmem).1).of_rawequal hk
  have hreach : forall n u, Nested cfg t n u ->
      exists b, sb.fresh <= b ∧ b < sb'.fresh ∧
        Equal cfg sb'.tables (Value.table u) (Value.table b) := by
    intro n u hnested
    induction hnested with
    | here => exact ⟨a, hlow, hhigh, h⟩
    | inside _ he hkey ih =>
        rcases ih with ⟨b, hb, hb', hequal⟩
        rcases hequal with ⟨hscalar⟩ | ⟨hentries, _⟩
        · exact absurd hscalar (not_isScalar_table _)
        · have hinner := hentries _ he ⟨hkey, Or.inr ⟨_, rfl⟩⟩
          rcases rawlookup_mem hinner.ne_nil with ⟨k, hmem, _⟩
          have hnewer := (htidy b hb hb' _ hmem).2
          change Equal cfg sb'.tables _ (rawlookup (sb'.tables b).entries _)
            at hinner
          generalize rawlookup (sb'.tables b).entries _ = w at hinner hnewer
          rcases hinner with ⟨hscalar⟩ | ⟨hinside, honly⟩
          · exact absurd hscalar (not_isScalar_table _)
          · rcases hnewer _ rfl with ⟨h1, h2⟩
            exact ⟨_, by omega, h2, Equal.table hinside honly⟩
  intro n u hnested e he hcopied
  rcases hreach n u hnested with ⟨b, hb, hb', hequal⟩
  exact hread hb hb' hequal e he hcopied

end

/-- The configuration as `lsb_create` copies it, with nil for a key: the copy is
made and every entry of it is read back if and only if all tables in it find
their slots on the two stacks and all keys in it are kept. -/
theorem copyTable_faithful_iff (cfg : Nat -> RawTable) (c s parent t : Nat)
    (sb : SandboxTables) :
    (exists r, copyTable cfg c s Value.nil parent t sb = Except.ok r ∧
      Equal cfg r.2.tables (Value.table t) (Value.table r.1)) <->
      FindsSlots cfg c s t ∧ KeysKept cfg t := by
  constructor
  · rintro ⟨r, hrun, hequal⟩
    rcases copyTable_made c s Value.nil parent t sb r hrun with
      ⟨sb₁, hmade, hset⟩
    rcases hmade.new r.1 rfl with ⟨hlow, hhigh⟩
    change r.2 = sb₁ at hset
    rw [hset] at hequal
    exact ⟨(copyTable_returns_iff c s _ parent t sb).mp ⟨r, hrun⟩,
      hequal.keysKept hlow hhigh hmade.tidy⟩
  · rintro ⟨hslots, hkeys⟩
    rcases (copyTable_returns_iff c s Value.nil parent t sb).mpr hslots with
      ⟨r, hrun⟩
    rcases copyTable_made c s Value.nil parent t sb r hrun with
      ⟨sb₁, hmade, hset⟩
    refine ⟨r, hrun, ?_⟩
    change r.2 = sb₁ at hset
    rw [hset]
    apply hmade.equal
    rintro u ⟨⟩
    exact hkeys

/-- A configuration that is one global, the boolean `a`. -/
def flagConfig : Nat -> RawTable :=
  fun _ => RawTable.empty.setfield (ascii "a") (Value.boolean true)

def noTables : SandboxTables where
  fresh := 0
  tables := fun _ => RawTable.empty

def flagCopy : SandboxTables :=
  noTables.newtable.setKey 0 (Value.string (ascii "a")) (Value.boolean true)

theorem copyTable_flagConfig :
    copyTable flagConfig 2 2 Value.nil 0 0 noTables =
      Except.ok (0, flagCopy) :=
  rfl

/-- A table inside itself is copied until a stack is full. -/
theorem copyTable_cyclic {cfg : Nat -> RawTable} {c s n m t u : Nat}
    (h : Nested cfg t n u) (hcycle : Nested cfg u (m + 1) u) (key : Value)
    (parent : Nat) (sb : SandboxTables) :
    copyTable cfg c s key parent t sb = Except.error Stop.stackOverflow := by
  cases hrun : copyTable cfg c s key parent t sb with
  | error stop => rfl
  | ok r =>
      have hslots :=
        (copyTable_returns_iff c s key parent t sb).mp ⟨r, hrun⟩
      exact absurd hslots (not_findsSlots_of_cycle h hcycle)

/-- The globals of `t = {} t.t = t`. -/
def selfConfig : Nat -> RawTable :=
  fun _ => RawTable.empty.setfield (ascii "t") (Value.table 1)

theorem nested_selfConfig (t : Nat) : Nested selfConfig t 1 1 :=
  Nested.inside Nested.here List.mem_cons_self (Or.inr rfl)

def SelfConfigOverflows : Prop :=
  forall c s : Nat, copyTable selfConfig c s Value.nil 0 0 noTables =
    Except.error Stop.stackOverflow

theorem copyTable_cyclic_self : SelfConfigOverflows :=
  fun _ _ => copyTable_cyclic (nested_selfConfig 0) (nested_selfConfig 1)
    Value.nil 0 noTables

/-!
## Reading the configuration
-/

/-- `read_config` with a string, which is cut off at its first NUL; the
configuration's table is in the registry. -/
def readConfig (sb : SandboxTables) (config : Nat) (name : List UInt8) :
    Value :=
  (sb.tables config).rawget (Value.string (name.takeWhile (fun b => b ≠ 0)))

/-- A script reads what the configuration has under a name, and nil for a name
that has no value, or none that is copied. -/
theorem readConfig_faithful {cfg : Nat -> RawTable} {c s parent t : Nat}
    {sb : SandboxTables} {r : Nat × SandboxTables}
    (h : copyTable cfg c s Value.nil parent t sb = Except.ok r)
    (hkeys : KeysKept cfg t) (name : List UInt8) :
    (forall e, e ∈ (cfg t).entries ->
      e.1 = Value.string (name.takeWhile (fun b => b ≠ 0)) ->
      IsCopied e -> Equal cfg r.2.tables e.2 (readConfig r.2 r.1 name)) ∧
    ((forall e, e ∈ (cfg t).entries ->
      e.1 = Value.string (name.takeWhile (fun b => b ≠ 0)) ->
      ¬ IsCopied e) -> readConfig r.2 r.1 name = Value.nil) := by
  have hslots := (copyTable_returns_iff c s _ parent t sb).mp ⟨r, h⟩
  rcases (copyTable_faithful_iff cfg c s parent t sb).mpr ⟨hslots, hkeys⟩ with
    ⟨r', hrun, hequal⟩
  cases h.symm.trans hrun
  rcases hequal with ⟨hscalar⟩ | ⟨hentries, honly⟩
  · exact absurd hscalar (not_isScalar_table _)
  · constructor
    · intro e he hname hcopied
      unfold readConfig
      rw [← hname]
      exact hentries e he hcopied
    · intro hnone
      by_contra hread
      rcases honly _ hread with ⟨e, he, hcopied, hsame⟩
      rw [rawequal_comm] at hsame
      have hstring : (Value.string (name.takeWhile (fun b => b ≠ 0))).type ≠
          LuaType.number := by
        intro h
        cases h
      have hname := (rawequal_of_ne_number hstring).mp hsame
      exact hnone e he hname.symm hcopied

theorem keysKept_flagConfig : KeysKept flagConfig 0 := by
  intro n u hnested e he _
  have hflag := List.mem_singleton.mp he
  rw [hflag]
  change 0 ∉ (ascii "a").takeWhile (fun b => b ≠ 0)
  decide

theorem readConfig_faithful_flag :
    (forall e, e ∈ (flagConfig 0).entries ->
      e.1 = Value.string ((ascii "a").takeWhile (fun b => b ≠ 0)) ->
      IsCopied e ->
        Equal flagConfig flagCopy.tables e.2
          (readConfig flagCopy 0 (ascii "a"))) ∧
    ((forall e, e ∈ (flagConfig 0).entries ->
      e.1 = Value.string ((ascii "a").takeWhile (fun b => b ≠ 0)) ->
      ¬ IsCopied e) -> readConfig flagCopy 0 (ascii "a") = Value.nil) :=
  readConfig_faithful copyTable_flagConfig keysKept_flagConfig (ascii "a")

end Core
end LuaSandbox
