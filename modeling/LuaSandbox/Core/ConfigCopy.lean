import LuaSandbox.Foundation.FailingLoop
import LuaSandbox.Lua.RawTable
import LuaSandbox.Lua.Traversal

/-!
# Copying the configuration

The configuration is read in a Lua state of its own, and `copy_table` copies
the table of its globals into the state of the sandbox.
-/

namespace LuaSandbox
namespace Core

open Foundation Lua

/-!
## The two states

The tables of the configuration are only read.  Each state has a stack, of
which only the free slots matter; nothing makes room for more.
-/

/-- The tables of the sandbox by their addresses. -/
structure SandboxTables where
  fresh : Nat
  tables : Nat -> RawTable

namespace SandboxTables

variable (sb : SandboxTables)

/-- The new table has the address `fresh`. -/
def newtable : SandboxTables where
  fresh := sb.fresh + 1
  tables := fun x => if x = sb.fresh then RawTable.empty else sb.tables x

def update (t : Nat) (f : RawTable -> RawTable) : SandboxTables :=
  { sb with tables := fun x => if x = t then f (sb.tables t) else sb.tables x }

/-- Assign a value to what the key of the configuration is converted to; keys
of other types are left out. -/
def setKey (t : Nat) (key value : Value) : SandboxTables :=
  match key with
  | Value.string k => sb.update t (fun T => T.setfield k value)
  | Value.number d => sb.update t (fun T => T.rawseti d.toLongLong value)
  | _ => sb

end SandboxTables

/-- A stack is used beyond its free slots. -/
inductive Stop where
  | stackOverflow
  deriving DecidableEq

section

variable (copyNested : Value -> Nat -> Nat -> SandboxTables ->
  Except Stop (Nat × SandboxTables))
variable (s a : Nat) (sb : SandboxTables)

/-- The value of a key that is a number or a string; the table at `a` is on top
of the sandbox's stack, which has `s` more slots. -/
def copyValue (key v : Value) : Except Stop SandboxTables :=
  match v with
  | Value.string _ | Value.number _ | Value.boolean _ =>
      if s = 0 then Except.error Stop.stackOverflow
      else Except.ok (sb.setKey a key v)
  | Value.table u => (copyNested key a u sb).map Prod.snd
  -- the type is reported and skipped
  | _ => Except.ok sb

def copyEntry (e : Value × Value) : Except Stop SandboxTables :=
  match e.1.type with
  | LuaType.number | LuaType.string => copyValue copyNested s a sb e.1 e.2
  | _ => Except.ok sb

end

/-- The stack of the configuration has `c` free slots, with the key `key` and
the table `t` on top; that of the sandbox has `s`, with the table `parent` on
top.  The copy goes under the key, or stays on the stack. -/
def copyTable (cfg : Nat -> RawTable) : Nat -> Nat -> Value -> Nat -> Nat ->
    SandboxTables -> Except Stop (Nat × SandboxTables)
  -- `lua_newtable`
  | _, 0, _, _, _, _ => Except.error Stop.stackOverflow
  -- `lua_pushnil`
  | 0, _ + 1, _, _, _, _ => Except.error Stop.stackOverflow
  -- `lua_next` needs a slot for the value, unless nothing is left
  | 1, _ + 1, key, parent, t, sb =>
      if live (cfg t).entries = [] then
        Except.ok (sb.fresh,
          sb.newtable.setKey parent key (Value.table sb.fresh))
      else
        Except.error Stop.stackOverflow
  | c + 2, s + 1, key, parent, t, sb => do
      let sb' <- (live (cfg t).entries).foldlM
        (copyEntry (copyTable cfg c s) s sb.fresh) sb.newtable
      Except.ok (sb.fresh, sb'.setKey parent key (Value.table sb.fresh))

/-!
## Nested tables

A table is nested in another one by the entries that are copied.
-/

def IsKey (key : Value) : Prop :=
  key.type = LuaType.number ∨ key.type = LuaType.string

/-- The entries that have a copy. -/
def IsCopied (e : Value × Value) : Prop :=
  IsKey e.1 ∧ (IsScalar e.2 ∨ exists u, e.2 = Value.table u)

/-- `Nested cfg t n u`: the table `u` is found `n` tables deep in `t`. -/
inductive Nested (cfg : Nat -> RawTable) (t : Nat) : Nat -> Nat -> Prop where
  | here : Nested cfg t 0 t
  | inside {n u v : Nat} {key : Value} (h : Nested cfg t n u)
      (he : (key, Value.table v) ∈ (cfg u).entries) (hkey : IsKey key) :
      Nested cfg t (n + 1) v

/-- What a table that is nested `n` deep takes of the two stacks. -/
structure HasSlots (cfg : Nat -> RawTable) (c s n u : Nat) : Prop where
  config : 2 * n < c
  sandbox : n < s
  entry : live (cfg u).entries ≠ [] -> 2 * n + 1 < c
  scalar : forall e, e ∈ (cfg u).entries -> IsKey e.1 -> IsScalar e.2 ->
    n + 1 < s

def FindsSlots (cfg : Nat -> RawTable) (c s t : Nat) : Prop :=
  forall n u, Nested cfg t n u -> HasSlots cfg c s n u

section

variable {cfg : Nat -> RawTable} {c s t : Nat}

theorem nested_succ {n v : Nat} : Nested cfg t (n + 1) v <->
    exists key u, (key, Value.table u) ∈ (cfg t).entries ∧ IsKey key ∧
      Nested cfg u n v := by
  constructor
  · intro h
    induction n generalizing v with
    | zero =>
        rcases h with _ | ⟨hbefore, he, hkey⟩
        cases hbefore
        exact ⟨_, v, he, hkey, Nested.here⟩
    | succ n ih =>
        rcases h with _ | ⟨hbefore, he, hkey⟩
        rcases ih hbefore with ⟨key, u, hfirst, hk, hrest⟩
        exact ⟨key, u, hfirst, hk, Nested.inside hrest he hkey⟩
  · rintro ⟨key, u, hfirst, hk, hrest⟩
    induction hrest with
    | here => exact Nested.inside Nested.here hfirst hk
    | inside _ he hkey ih => exact Nested.inside ih he hkey

/-- A table inside itself is nested deeper than any stack. -/
theorem not_findsSlots_of_cycle {n m u : Nat} (h : Nested cfg t n u)
    (hcycle : Nested cfg u (m + 1) u) : ¬ FindsSlots cfg c s t := by
  have hdeep : forall k, exists n, k <= n ∧ Nested cfg t n u := by
    intro k
    induction k with
    | zero => exact ⟨n, Nat.zero_le n, h⟩
    | succ k ih =>
        rcases ih with ⟨n', hle, hn'⟩
        have hmore : forall {j v}, Nested cfg u j v ->
            Nested cfg t (n' + j) v := by
          intro j v hj
          induction hj with
          | here => exact hn'
          | inside _ he hkey ih => exact Nested.inside ih he hkey
        exact ⟨n' + (m + 1), by omega, hmore hcycle⟩
  intro hslots
  rcases hdeep s with ⟨n', hle, hn'⟩
  have hlt := (hslots n' u hn').sandbox
  omega

/-- What the tables take, level by level. -/
theorem findsSlots_succ : FindsSlots cfg (c + 2) (s + 1) t <->
    forall e, e ∈ (cfg t).entries -> IsKey e.1 ->
      (IsScalar e.2 -> 0 < s) ∧
        forall u, e.2 = Value.table u -> FindsSlots cfg c s u := by
  constructor
  · intro h e he hkey
    constructor
    · intro hscalar
      have hlt := (h 0 t Nested.here).scalar e he hkey hscalar
      omega
    · intro u hu n v hnested
      have he' : (e.1, Value.table u) ∈ (cfg t).entries := by
        rw [← hu]
        exact he
      have hdeep := h (n + 1) v (nested_succ.mpr ⟨e.1, u, he', hkey, hnested⟩)
      constructor
      · have := hdeep.config
        omega
      · have := hdeep.sandbox
        omega
      · intro hlive
        have := hdeep.entry hlive
        omega
      · intro e' hmem hkey' hscalar
        have := hdeep.scalar e' hmem hkey' hscalar
        omega
  · intro h n u hnested
    cases n with
    | zero =>
        cases hnested
        constructor
        · omega
        · omega
        · intro _
          omega
        · intro e he hkey hscalar
          have := (h e he hkey).1 hscalar
          omega
    | succ n =>
        rcases nested_succ.mp hnested with ⟨key, v, he, hkey, hrest⟩
        have hslots := (h _ he hkey).2 v rfl n u hrest
        constructor
        · have := hslots.config
          omega
        · have := hslots.sandbox
          omega
        · intro hlive
          have := hslots.entry hlive
          omega
        · intro e' hmem hkey' hscalar
          have := hslots.scalar e' hmem hkey' hscalar
          omega

theorem mem_live {e : Value × Value} :
    e ∈ live (cfg t).entries <->
      e ∈ (cfg t).entries ∧ e.2 ≠ Value.nil := by
  unfold live
  rw [List.mem_filter, decide_eq_true_iff]

end

/-!
## When the copy comes to an end
-/

section

variable {cfg : Nat -> RawTable}

/-- All that a turn of the loop can do. -/
theorem copyEntry_cases (e : Value × Value)
    (f : Value -> Nat -> Nat -> SandboxTables ->
      Except Stop (Nat × SandboxTables)) (s a : Nat) (sb : SandboxTables) :
    (¬ IsCopied e ∧ copyEntry f s a sb e = Except.ok sb) ∨
      (IsKey e.1 ∧ IsScalar e.2 ∧ copyEntry f s a sb e =
        if s = 0 then Except.error Stop.stackOverflow
        else Except.ok (sb.setKey a e.1 e.2)) ∨
      (IsKey e.1 ∧ exists u, e.2 = Value.table u ∧
        copyEntry f s a sb e = (f e.1 a u sb).map Prod.snd) := by
  rcases e with ⟨key, v⟩
  by_cases hkey : IsKey key
  · have hturn : copyEntry f s a sb (key, v) = copyValue f s a sb key v := by
      unfold copyEntry
      rcases hkey with h | h
      · rw [h]
      · rw [h]
    rw [hturn]
    cases v with
    | string x => exact Or.inr (Or.inl ⟨hkey, Or.inl rfl, rfl⟩)
    | number x => exact Or.inr (Or.inl ⟨hkey, Or.inr (Or.inl rfl), rfl⟩)
    | boolean x => exact Or.inr (Or.inl ⟨hkey, Or.inr (Or.inr rfl), rfl⟩)
    | table u => exact Or.inr (Or.inr ⟨hkey, u, rfl, rfl⟩)
    | _ =>
        left
        constructor
        · rintro ⟨_, hscalar | ⟨u, hu⟩⟩
          · rcases hscalar with h | h | h <;> cases h
          · cases hu
        · rfl
  · left
    constructor
    · intro h
      exact hkey h.1
    · unfold copyEntry
      split
      · rename_i h
        exact absurd (Or.inl h) hkey
      · rename_i h
        exact absurd (Or.inr h) hkey
      · rfl

theorem copyEntry_returns_iff {c s : Nat}
    (hnested : forall key parent u sb,
      (exists r, copyTable cfg c s key parent u sb = Except.ok r) <->
        FindsSlots cfg c s u)
    (a : Nat) (e : Value × Value) (sb : SandboxTables) :
    (exists sb', copyEntry (copyTable cfg c s) s a sb e = Except.ok sb') <->
      (IsKey e.1 -> (IsScalar e.2 -> 0 < s) ∧
        forall u, e.2 = Value.table u -> FindsSlots cfg c s u) := by
  rcases copyEntry_cases e (copyTable cfg c s) s a sb with
    ⟨hskip, hturn⟩ | ⟨hkey, hscalar, hturn⟩ | ⟨hkey, u, hu, hturn⟩
  · rw [hturn]
    apply iff_of_true ⟨sb, rfl⟩
    intro hkey
    constructor
    · intro hscalar
      exact absurd ⟨hkey, Or.inl hscalar⟩ hskip
    · intro u hu
      exact absurd ⟨hkey, Or.inr ⟨u, hu⟩⟩ hskip
  · have htable : forall u, e.2 ≠ Value.table u := by
      intro u hu
      rw [hu] at hscalar
      exact not_isScalar_table u hscalar
    rw [hturn]
    by_cases hs : s = 0
    · rw [if_pos hs]
      constructor
      · rintro ⟨sb', h⟩
        cases h
      · intro h
        have hpos := (h hkey).1 hscalar
        omega
    · rw [if_neg hs]
      apply iff_of_true ⟨_, rfl⟩
      intro _
      exact ⟨fun _ => by omega, fun u hu => absurd hu (htable u)⟩
  · rw [hturn, hu]
    constructor
    · rintro ⟨sb', h⟩ _
      constructor
      · intro hscalar
        exact absurd hscalar (not_isScalar_table u)
      · intro v hv
        cases hv
        cases hrun : copyTable cfg c s e.1 a u sb with
        | error stop =>
            rw [hrun] at h
            cases h
        | ok r => exact (hnested e.1 a u sb).mp ⟨r, hrun⟩
    · intro h
      rcases (hnested e.1 a u sb).mpr ((h hkey).2 u rfl) with ⟨r, hrun⟩
      rw [hrun]
      exact ⟨r.2, rfl⟩

/-- The copy comes to an end where every table finds its slots, and nowhere
else. -/
theorem copyTable_returns_iff (c s : Nat) (key : Value) (parent t : Nat)
    (sb : SandboxTables) :
    (exists r, copyTable cfg c s key parent t sb = Except.ok r) <->
      FindsSlots cfg c s t := by
  induction c using Nat.twoStepInduction generalizing s key parent t sb with
  | zero =>
      have hoverflow : copyTable cfg 0 s key parent t sb =
          Except.error Stop.stackOverflow := by
        cases s <;> rfl
      rw [hoverflow]
      constructor
      · rintro ⟨r, h⟩
        cases h
      · intro h
        exact absurd (h 0 t Nested.here).config (by omega)
  | one =>
      cases s with
      | zero =>
          constructor
          · rintro ⟨r, h⟩
            cases h
          · intro h
            exact absurd (h 0 t Nested.here).sandbox (by omega)
      | succ s =>
          unfold copyTable
          by_cases hlive : live (cfg t).entries = []
          · rw [if_pos hlive]
            apply iff_of_true ⟨_, rfl⟩
            -- without entries nothing is nested
            intro n u hnested
            have hnone : forall key v, (key, v) ∈ (cfg t).entries ->
                v = Value.nil := by
              intro key v he
              by_contra hne
              have hmem := mem_live.mpr ⟨he, hne⟩
              rw [hlive] at hmem
              exact absurd hmem List.not_mem_nil
            cases n with
            | zero =>
                cases hnested
                constructor
                · omega
                · omega
                · intro h
                  exact absurd hlive h
                · intro e he _ hscalar
                  rw [hnone e.1 e.2 he] at hscalar
                  exact absurd hscalar not_isScalar_nil
            | succ n =>
                rcases nested_succ.mp hnested with ⟨key, v, he, _⟩
                cases hnone key _ he
          · rw [if_neg hlive]
            constructor
            · rintro ⟨r, h⟩
              cases h
            · intro h
              exact absurd ((h 0 t Nested.here).entry hlive) (by omega)
  | more c ih _ =>
      cases s with
      | zero =>
          constructor
          · rintro ⟨r, h⟩
            cases h
          · intro h
            exact absurd (h 0 t Nested.here).sandbox (by omega)
      | succ s =>
          have hloop : (exists sb', (live (cfg t).entries).foldlM
              (copyEntry (copyTable cfg c s) s sb.fresh) sb.newtable =
                Except.ok sb') <-> _ :=
            foldlM_ok_iff
              (fun e _ sb' => copyEntry_returns_iff (ih s) sb.fresh e sb')
              sb.newtable
          rw [findsSlots_succ]
          constructor
          · rintro ⟨r, h⟩
            unfold copyTable at h
            rcases except_bind_ok.mp h with ⟨sb', hrun, _⟩
            intro e he hkey
            by_cases hnil : e.2 = Value.nil
            · rw [hnil]
              constructor
              · intro hscalar
                exact absurd hscalar not_isScalar_nil
              · intro u hu
                cases hu
            · exact hloop.mp ⟨sb', hrun⟩ e (mem_live.mpr ⟨he, hnil⟩) hkey
          · intro h
            rcases hloop.mpr (fun e he => h e (mem_live.mp he).1) with
              ⟨sb', hrun⟩
            unfold copyTable
            exact ⟨_, except_bind_ok.mpr ⟨sb', hrun, rfl⟩⟩

end

end Core
end LuaSandbox
