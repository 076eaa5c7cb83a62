import LuaSandbox.Core.ModuleSteps

/-!
# What a plugin can get hold of

The configuration disables libraries and names entries that are removed from
them.  A plugin gets hold of what the tables in its hands lead to; a step that
it makes is judged by a set of values that nothing leads out of.
-/

namespace LuaSandbox
namespace Core

open Foundation Lua

/-!
## The restrictions
-/

/-- The table of the configuration, and the tables of its restrictions. -/
inductive ConfigTable (env : ModuleEnv) (st : ModuleState) : Nat -> Prop where
  | config : ConfigTable env st env.config
  | disabled {d : Nat} (h : st.rawget env.config
      (luaString "disable_modules") = Value.table d) : ConfigTable env st d
  | removed {r : Nat} (h : st.rawget env.config
      (luaString "remove_entries") = Value.table r) : ConfigTable env st r
  | list {r l : Nat} {name : List UInt8} (h : st.rawget env.config
      (luaString "remove_entries") = Value.table r)
      (hlist : st.rawget r (Value.string name) = Value.table l) :
      ConfigTable env st l

/-- The value at a place of a list that is counted from zero. -/
def listAt (st : ModuleState) (l n : Nat) : Value :=
  st.rawget l (integer (toInt ((n : Int) + 1)))

def IsDisabled (env : ModuleEnv) (st : ModuleState) (name : List UInt8) :
    Prop :=
  exists d, st.rawget env.config (luaString "disable_modules") =
      Value.table d ∧ st.rawget d (Value.string name) ≠ Value.nil

/-- The list of the entries that are removed from a library. -/
def HasList (env : ModuleEnv) (st : ModuleState) (name : List UInt8)
    (l : Nat) : Prop :=
  exists r, st.rawget env.config (luaString "remove_entries") =
      Value.table r ∧ st.rawget r (Value.string name) = Value.table l

def IsRemoved (env : ModuleEnv) (st : ModuleState)
    (name key : List UInt8) : Prop :=
  exists l n, HasList env st name l ∧
    (forall i, i <= n -> listAt st l i ≠ Value.nil) ∧
    listAt st l n = Value.string key

/-- The function is one of the libraries', but only where it is restricted. -/
def Forbidden (env : ModuleEnv) (st : ModuleState) (f : Nat) : Prop :=
  (exists name lib key, env.preloaded name = some lib ∧
    (key, f) ∈ lib.functions) ∧
  forall name lib key, env.preloaded name = some lib ->
    (key, f) ∈ lib.functions ->
    IsDisabled env st name ∨ IsRemoved env st name key

/-- The tables of the restrictions are as they were. -/
def SameRestrictions (env : ModuleEnv) (st st' : ModuleState) : Prop :=
  forall u, ConfigTable env st u -> st'.tables u = st.tables u

section

variable {env : ModuleEnv} {st st' st'' : ModuleState}

theorem SameRestrictions.rawget (h : SameRestrictions env st st') {u : Nat}
    (hu : ConfigTable env st u) (key : Value) :
    st'.rawget u key = st.rawget u key := by
  unfold ModuleState.rawget
  rw [h u hu]

theorem SameRestrictions.configTable (h : SameRestrictions env st st')
    {u : Nat} : ConfigTable env st' u <-> ConfigTable env st u := by
  have hconfig := h.rawget ConfigTable.config
  constructor
  · intro hu
    cases hu with
    | config => exact ConfigTable.config
    | disabled hd =>
        rw [hconfig] at hd
        exact ConfigTable.disabled hd
    | removed hr =>
        rw [hconfig] at hr
        exact ConfigTable.removed hr
    | list hr hlist =>
        rw [hconfig] at hr
        rw [h.rawget (ConfigTable.removed hr)] at hlist
        exact ConfigTable.list hr hlist
  · intro hu
    cases hu with
    | config => exact ConfigTable.config
    | disabled hd =>
        rw [← hconfig] at hd
        exact ConfigTable.disabled hd
    | removed hr =>
        rw [← hconfig] at hr
        exact ConfigTable.removed hr
    | list hr hlist =>
        rw [← h.rawget (ConfigTable.removed hr)] at hlist
        rw [← hconfig] at hr
        exact ConfigTable.list hr hlist

theorem SameRestrictions.symm (h : SameRestrictions env st st') :
    SameRestrictions env st' st :=
  fun u hu => (h u (h.configTable.mp hu)).symm

theorem SameRestrictions.trans (h : SameRestrictions env st st')
    (h' : SameRestrictions env st' st'') : SameRestrictions env st st'' :=
  fun u hu => (h' u (h.configTable.mpr hu)).trans (h u hu)

theorem SameRestrictions.isDisabled (h : SameRestrictions env st st')
    {name : List UInt8} (hd : IsDisabled env st name) :
    IsDisabled env st' name := by
  rcases hd with ⟨d, hconfig, hentry⟩
  refine ⟨d, ?_, ?_⟩
  · rw [h.rawget ConfigTable.config]
    exact hconfig
  · rw [h.rawget (ConfigTable.disabled hconfig)]
    exact hentry

theorem SameRestrictions.hasList (h : SameRestrictions env st st')
    {name : List UInt8} {l : Nat} (hl : HasList env st name l) :
    HasList env st' name l := by
  rcases hl with ⟨r, hconfig, hlist⟩
  refine ⟨r, ?_, ?_⟩
  · rw [h.rawget ConfigTable.config]
    exact hconfig
  · rw [h.rawget (ConfigTable.removed hconfig)]
    exact hlist

theorem HasList.configTable {name : List UInt8} {l : Nat}
    (h : HasList env st name l) : ConfigTable env st l := by
  rcases h with ⟨r, hconfig, hlist⟩
  exact ConfigTable.list hconfig hlist

theorem SameRestrictions.isRemoved (h : SameRestrictions env st st')
    {name key : List UInt8} (hr : IsRemoved env st name key) :
    IsRemoved env st' name key := by
  rcases hr with ⟨l, n, hlist, hbefore, hkey⟩
  have hsame : forall i, listAt st' l i = listAt st l i :=
    fun i => h.rawget hlist.configTable _
  refine ⟨l, n, h.hasList hlist, ?_, ?_⟩
  · intro i hi
    rw [hsame i]
    exact hbefore i hi
  · rw [hsame n]
    exact hkey

theorem SameRestrictions.forbidden (h : SameRestrictions env st st')
    {f : Nat} (hf : Forbidden env st' f) : Forbidden env st f := by
  refine ⟨hf.1, ?_⟩
  intro name lib key hlib hmem
  rcases hf.2 name lib key hlib hmem with hdisabled | hremoved
  · exact Or.inl (h.symm.isDisabled hdisabled)
  · exact Or.inr (h.symm.isRemoved hremoved)

end

/-!
## What is in the hands of a plugin
-/

/-- Functions that no library registers, and what is no object of Lua's. -/
def IsHarmless (env : ModuleEnv) (v : Value) : Prop :=
  (forall t, v ≠ Value.table t) ∧
    forall f name lib key, v = Value.cfunction f ->
      env.preloaded name = some lib -> (key, f) ∉ lib.functions

/-- The globals, what it was given and what `read_config` and `require` hand
out, and everything that tables among these hold. -/
inductive InReach (env : ModuleEnv) (st : ModuleState) : Value -> Prop where
  | globals : InReach env st (Value.table env.globals)
  | given {v : Value} (h : v ∈ st.given) : InReach env st v
  | harmless {v : Value} (h : IsHarmless env v) : InReach env st v
  | config (name : List UInt8) :
      InReach env st (st.rawget env.config (Value.string name))
  | loaded (name : List UInt8) :
      InReach env st (st.rawget env.loaded (Value.string name))
  | key {t : Nat} {e : Value × Value} (h : InReach env st (Value.table t))
      (he : e ∈ (st.tables t).entries) : InReach env st e.1
  | entry {t : Nat} {e : Value × Value} (h : InReach env st (Value.table t))
      (he : e ∈ (st.tables t).entries) : InReach env st e.2
  | metatable {t m : Nat} (h : InReach env st (Value.table t))
      (hm : st.metatable t = some m) : InReach env st (Value.table m)

/-- Nothing leads out of `S`, but from the tables in `loose`. -/
structure Confined (env : ModuleEnv) (S : Value -> Prop) (loose : Nat -> Prop)
    (st : ModuleState) : Prop where
  globals : S (Value.table env.globals)
  given : forall v, v ∈ st.given -> S v
  harmless : forall v, IsHarmless env v -> S v
  config : forall name, S (st.rawget env.config (Value.string name))
  loaded : forall name, S (st.rawget env.loaded (Value.string name))
  entry : forall t e, ¬ loose t -> S (Value.table t) ->
    e ∈ (st.tables t).entries -> S e.1 ∧ S e.2
  metatable : forall t m, S (Value.table t) -> st.metatable t = some m ->
    S (Value.table m)

def nowhere : Nat -> Prop := fun _ => False

section

variable {env : ModuleEnv} {S : Value -> Prop} {loose : Nat -> Prop}
  {st : ModuleState}

theorem inReach_confined (env : ModuleEnv) (st : ModuleState) :
    Confined env (InReach env st) nowhere st where
  globals := InReach.globals
  given := fun _ h => InReach.given h
  harmless := fun _ h => InReach.harmless h
  config := fun name => InReach.config name
  loaded := fun name => InReach.loaded name
  entry := fun _ _ _ h he => ⟨InReach.key h he, InReach.entry h he⟩
  metatable := fun _ _ h hm => InReach.metatable h hm

/-- The plugin gets hold of no more than a set holds that nothing leads out
of. -/
theorem Confined.of_inReach (h : Confined env S nowhere st) {v : Value}
    (hv : InReach env st v) : S v := by
  induction hv with
  | globals => exact h.globals
  | given hmem => exact h.given _ hmem
  | harmless hv => exact h.harmless _ hv
  | config name => exact h.config name
  | loaded name => exact h.loaded name
  | key _ he ih => exact (h.entry _ _ not_false ih he).1
  | entry _ he ih => exact (h.entry _ _ not_false ih he).2
  | metatable _ hm ih => exact h.metatable _ _ ih hm

theorem isHarmless_nil (env : ModuleEnv) : IsHarmless env Value.nil :=
  ⟨fun _ => Value.noConfusion, fun _ _ _ _ h => Value.noConfusion h⟩

theorem isHarmless_string (env : ModuleEnv) (s : List UInt8) :
    IsHarmless env (Value.string s) :=
  ⟨fun _ => Value.noConfusion, fun _ _ _ _ h => Value.noConfusion h⟩

theorem isHarmless_lightuserdata (env : ModuleEnv) (p : Nat) :
    IsHarmless env (Value.lightuserdata p) :=
  ⟨fun _ => Value.noConfusion, fun _ _ _ _ h => Value.noConfusion h⟩

theorem Confined.assign (h : Confined env S loose st) {t : Nat}
    {key value : Value} (hvalue : S value ∨ loose t ∧ t ≠ env.config ∧
      t ≠ env.loaded)
    (hkey : ¬ loose t -> S key) :
    Confined env S loose (st.assign t key value) := by
  have hroot : forall root name, root = env.config ∨ root = env.loaded ->
      S (st.rawget root (Value.string name)) ->
      S ((st.assign t key value).rawget root (Value.string name)) := by
    intro root name hroot hold
    by_cases hsame : root = t
    · have hS : S value := by
        rcases hvalue with hS | ⟨_, hconfig, hloaded⟩
        · exact hS
        · rcases hroot with hr | hr
          · exact absurd (hsame.symm.trans hr) hconfig
          · exact absurd (hsame.symm.trans hr) hloaded
      subst hsame
      by_cases htable : IsTableKey key
      · rw [assign_rawget _ _ _ htable]
        split
        · exact hS
        · exact hold
      · unfold ModuleState.assign
        rw [dif_neg htable]
        exact hold
    · rw [assign_rawget_of_ne _ _ _ _ hsame]
      exact hold
  constructor
  · exact h.globals
  · rw [assign_given]
    exact h.given
  · exact h.harmless
  · intro name
    exact hroot _ name (Or.inl rfl) (h.config name)
  · intro name
    exact hroot _ name (Or.inr rfl) (h.loaded name)
  · intro u e hloose hu he
    by_cases hsame : u = t
    · subst hsame
      have hS : S value := by
        rcases hvalue with hS | ⟨hf, _⟩
        · exact hS
        · exact absurd hf hloose
      by_cases htable : IsTableKey key
      · rcases mem_assign htable he with ⟨⟨hv, _⟩, hk | ⟨e', he', hk⟩⟩ |
          ⟨hold, _⟩
        · rw [hv, hk]
          exact ⟨hkey hloose, hS⟩
        · rw [hv, ← hk]
          exact ⟨(h.entry u e' hloose hu he').1, hS⟩
        · exact h.entry u e hloose hu hold
      · unfold ModuleState.assign at he
        rw [dif_neg htable] at he
        exact h.entry u e hloose hu he
    · rw [assign_tables_of_ne _ _ _ _ hsame] at he
      exact h.entry u e hloose hu he
  · intro u m hu hm
    rw [assign_metatable] at hm
    exact h.metatable u m hu hm

theorem addTable_tables (st : ModuleState) (u : Nat) :
    st.addTable.tables u =
      if u = st.sb.fresh then RawTable.empty else st.tables u :=
  rfl

theorem addTable_tables_of_ne {u : Nat} (h : u ≠ st.sb.fresh) :
    st.addTable.tables u = st.tables u :=
  if_neg h

theorem Confined.addTable (h : Confined env S loose st) :
    Confined env S loose st.addTable := by
  have hroot : forall u name, S (st.rawget u (Value.string name)) ->
      S (st.addTable.rawget u (Value.string name)) := by
    intro u name hold
    unfold ModuleState.rawget
    rw [addTable_tables]
    split
    · exact h.harmless _ (isHarmless_nil env)
    · exact hold
  refine ⟨h.globals, h.given, h.harmless, ?_, ?_, ?_, h.metatable⟩
  · exact fun name => hroot _ name (h.config name)
  · exact fun name => hroot _ name (h.loaded name)
  · intro u e hloose hu he
    rw [addTable_tables] at he
    split at he
    · exact absurd he List.not_mem_nil
    · exact h.entry u e hloose hu he

theorem Confined.setMetatable (h : Confined env S loose st) {t : Nat}
    {m : Option Nat} (hm : forall u, m = some u -> S (Value.table u)) :
    Confined env S loose (st.setMetatable t m) := by
  refine ⟨h.globals, h.given, h.harmless, h.config, h.loaded, h.entry, ?_⟩
  intro u m' hu hmeta
  change (if u = t then m else st.metatable u) = some m' at hmeta
  split at hmeta
  · exact hm m' hmeta
  · exact h.metatable u m' hu hmeta

theorem Confined.give (h : Confined env S loose st) {values : List Value}
    (hvalues : forall v, v ∈ values -> S v) :
    Confined env S loose (st.give values) := by
  refine ⟨h.globals, ?_, h.harmless, h.config, h.loaded, h.entry,
    h.metatable⟩
  intro v hv
  rcases List.mem_append.mp hv with hnew | hold
  · exact hvalues v hnew
  · exact h.given v hold

theorem Confined.setRoom (h : Confined env S loose st) (n : Nat) :
    Confined env S loose (st.setRoom n) :=
  ⟨h.globals, h.given, h.harmless, h.config, h.loaded, h.entry, h.metatable⟩

/-- More values, with tables that hold nothing yet. -/
theorem Confined.extend (h : Confined env S loose st) {S' : Value -> Prop}
    (hsub : forall v, S v -> S' v)
    (hnew : forall u, S' (Value.table u) -> S (Value.table u) ∨
      (st.tables u).entries = [] ∧ st.metatable u = none) :
    Confined env S' loose st := by
  refine ⟨hsub _ h.globals, fun v hv => hsub v (h.given v hv),
    fun v hv => hsub v (h.harmless v hv), fun name => hsub _ (h.config name),
    fun name => hsub _ (h.loaded name), ?_, ?_⟩
  · intro u e hloose hu he
    rcases hnew u hu with hold | ⟨hempty, _⟩
    · have hS := h.entry u e hloose hold he
      exact ⟨hsub _ hS.1, hsub _ hS.2⟩
    · rw [hempty] at he
      exact absurd he List.not_mem_nil
  · intro u m hu hm
    rcases hnew u hu with hold | ⟨_, hbare⟩
    · exact hsub _ (h.metatable u m hold hm)
    · rw [hbare] at hm
      cases hm

theorem Confined.weaken (h : Confined env S nowhere st) (loose : Nat -> Prop) :
    Confined env S loose st :=
  ⟨h.globals, h.given, h.harmless, h.config, h.loaded,
    fun u e _ => h.entry u e not_false, h.metatable⟩

/-- The table that was loose holds nothing else either. -/
theorem Confined.close {t : Nat} (h : Confined env S (fun u => u = t) st)
    (ht : forall e, e ∈ (st.tables t).entries -> S e.1 ∧ S e.2) :
    Confined env S nowhere st := by
  refine ⟨h.globals, h.given, h.harmless, h.config, h.loaded, ?_,
    h.metatable⟩
  intro u e _ hu he
  by_cases hsame : u = t
  · rw [hsame] at he
    exact ht e he
  · exact h.entry u e hsame hu he

end

end Core
end LuaSandbox
