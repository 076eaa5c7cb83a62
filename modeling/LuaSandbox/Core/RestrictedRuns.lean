import LuaSandbox.Core.LibraryOpening

/-!
# Plugins and their restrictions

In a run in which the plugin leaves the configuration and the globals that name
libraries alone, and `require` does not run out of memory, no restricted
function comes into its reach.  Neither condition can be left out: the tables
of the configuration can be changed through `read_config`, and a call that runs
out of memory leaves the functions that it did not remove.
-/

namespace LuaSandbox
namespace Core

open Foundation Lua

/-!
## Secure states
-/

/-- The plugin has none of the restricted functions, and no way to the tables
that only the loader knows. -/
structure Guarded (env : ModuleEnv) (st : ModuleState) : Prop where
  globals_config : ¬ ConfigTable env st env.globals
  config_bare : forall u, ConfigTable env st u -> st.metatable u = none
  config_lt : env.config < st.sb.fresh
  config_private : ¬ InReach env st (Value.table env.config)
  loaded_bare : st.metatable env.loaded = none
  loaded_lt : env.loaded < st.sb.fresh
  loaded_private : ¬ InReach env st (Value.table env.loaded)
  loaded_ne : env.loaded ≠ env.config
  loaded_values : forall name,
    (st.rawget env.loaded (Value.string name)).toboolean = false ->
      st.rawget env.loaded (Value.string name) = Value.nil
  reach_lt : forall u, InReach env st (Value.table u) -> u < st.sb.fresh
  fresh_empty : forall u, st.sb.fresh <= u -> (st.tables u).entries = []
  fresh_bare : forall u, st.sb.fresh <= u -> st.metatable u = none
  lists : forall name l, HasList env st name l -> exists n, ListEnds st l n
  lawful : forall f, InReach env st (Value.cfunction f) ->
    ¬ Forbidden env st f

/-- Behind the initialization the base library is loaded. -/
structure Secure (env : ModuleEnv) (st : ModuleState) : Prop
    extends Guarded env st where
  base : (st.rawget env.loaded (Value.string [])).toboolean = true

section

variable {env : ModuleEnv} {st st' : ModuleState}

theorem inReach_rawget {t : Nat} (h : InReach env st (Value.table t))
    (key : Value) : InReach env st (st.rawget t key) := by
  by_cases hnil : st.rawget t key = Value.nil
  · rw [hnil]
    exact InReach.harmless (isHarmless_nil env)
  · rcases rawlookup_mem hnil with ⟨k, hmem, _⟩
    exact InReach.entry h hmem

theorem inReach_configTable {u : Nat} (hu : ConfigTable env st u) :
    u = env.config ∨ InReach env st (Value.table u) := by
  cases hu with
  | config => exact Or.inl rfl
  | disabled hd =>
      right
      rw [← hd]
      exact InReach.config _
  | removed hr =>
      right
      rw [← hr]
      exact InReach.config _
  | list hr hl =>
      right
      rename_i r _
      have hreach : InReach env st (Value.table r) := by
        rw [← hr]
        exact InReach.config _
      rw [← hl]
      exact inReach_rawget hreach _

theorem Guarded.configTable_lt (h : Guarded env st) {u : Nat}
    (hu : ConfigTable env st u) : u < st.sb.fresh := by
  rcases inReach_configTable hu with rfl | hreach
  · exact h.config_lt
  · exact h.reach_lt u hreach

theorem Guarded.loaded_config (h : Guarded env st) :
    ¬ ConfigTable env st env.loaded := by
  intro hu
  rcases inReach_configTable hu with heq | hreach
  · exact h.loaded_ne heq
  · exact h.loaded_private hreach

theorem Guarded.globals_ne (h : Guarded env st) : env.globals ≠ env.loaded := by
  intro heq
  have hglobals : InReach env st (Value.table env.globals) := InReach.globals
  rw [heq] at hglobals
  exact h.loaded_private hglobals

/-- The library has no global yet, and no function waits for one. -/
structure Unset (env : ModuleEnv) (st : ModuleState)
    (name : List UInt8) : Prop where
  unset : st.rawget env.globals (Value.string name) = Value.nil
  newindex : st.metamethod (Value.table env.globals) "__newindex" = Value.nil

theorem Secure.loadable (h : Secure env st) {name : List UInt8}
    (hunset : Unset env st name) : Loadable env st name where
  config_bare := h.config_bare
  config_lt := fun _ hu => h.configTable_lt hu
  loaded_bare := h.loaded_bare
  loaded_lt := h.loaded_lt
  loaded_config := h.loaded_config
  globals_lt := h.reach_lt _ InReach.globals
  globals_ne := h.globals_ne
  globals_config := h.globals_config
  handlers := by
    intro m hm
    have hreach := InReach.metatable InReach.globals hm
    constructor
    · intro heq
      rw [heq] at hreach
      exact h.loaded_private hreach
    · exact h.reach_lt m hreach
  newindex := hunset.newindex
  fresh_bare := h.fresh_bare
  unset := hunset.unset

theorem Guarded.removals (h : Guarded env st) (name : List UInt8) :
    exists xs, Removals env st name xs := by
  by_cases hlist : exists l, HasList env st name l
  · rcases hlist with ⟨l, hl⟩
    rcases h.lists name l hl with ⟨n, hn⟩
    exact ⟨_, Or.inl ⟨l, n, hl, hn, rfl⟩⟩
  · exact ⟨[], Or.inr ⟨fun l hl => hlist ⟨l, hl⟩, rfl⟩⟩

theorem HasList.unique {name : List UInt8} {l l' : Nat}
    (h : HasList env st name l) (h' : HasList env st name l') : l = l' := by
  rcases h with ⟨r, hr, hl⟩
  rcases h' with ⟨r', hr', hl'⟩
  cases hr.symm.trans hr'
  cases hl.symm.trans hl'
  rfl

theorem Removals.of_isRemoved {name key : List UInt8} {xs : List Value}
    (hxs : Removals env st name xs) (h : IsRemoved env st name key) :
    Value.string key ∈ xs := by
  rcases h with ⟨l, n, hl, hbefore, hkey⟩
  rcases hxs with ⟨l', k, hl', ⟨hnil, _⟩, rfl⟩ | ⟨hnone, _⟩
  · rw [← hl.unique hl'] at hnil ⊢
    have hlt : n < k := by
      by_contra hge
      exact hbefore k (by omega) hnil
    rw [← hkey]
    apply List.mem_map.mpr
    refine ⟨n, ?_, rfl⟩
    apply List.mem_range'_1.mpr
    omega
  · exact absurd hl (hnone l)

theorem Removals.inReach {name : List UInt8} {xs : List Value}
    (hxs : Removals env st name xs) {x : Value} (hx : x ∈ xs) :
    InReach env st x ∧ IsTableKey x := by
  rcases hxs with ⟨l, k, ⟨r, hr, hl⟩, ⟨_, hkeys⟩, rfl⟩ | ⟨_, rfl⟩
  · rcases List.mem_map.mp hx with ⟨i, hi, rfl⟩
    have hi' := List.mem_range'_1.mp hi
    constructor
    · have hreach : InReach env st (Value.table r) := by
        rw [← hr]
        exact InReach.config _
      have hlist := inReach_rawget hreach (Value.string name)
      rw [hl] at hlist
      exact inReach_rawget hlist _
    · exact hkeys i (by omega)
  · exact absurd hx List.not_mem_nil

/-!
## What comes into reach with a library
-/

/-- What is in reach, `n` new tables, and functions that are not restricted. -/
inductive Allowed (env : ModuleEnv) (st : ModuleState) (n : Nat) :
    Value -> Prop where
  | held {v : Value} (h : InReach env st v) : Allowed env st n v
  | table {u : Nat} (hle : st.sb.fresh <= u) (hlt : u < st.sb.fresh + n) :
      Allowed env st n (Value.table u)
  | function {f : Nat} (h : ¬ Forbidden env st f) :
      Allowed env st n (Value.cfunction f)

theorem allowed_table {n u : Nat} (h : Allowed env st n (Value.table u)) :
    InReach env st (Value.table u) ∨
      st.sb.fresh <= u ∧ u < st.sb.fresh + n := by
  cases h with
  | held hreach => exact Or.inl hreach
  | table hle hlt => exact Or.inr ⟨hle, hlt⟩

theorem allowed_library (env : ModuleEnv) (st : ModuleState) {n : Nat}
    (h : 0 < n) : Allowed env st n (Value.table st.sb.fresh) :=
  Allowed.table (Nat.le_refl _) (Nat.lt_add_of_pos_right h)

theorem Guarded.allowed_confined (h : Guarded env st) (n : Nat) :
    Confined env (Allowed env st n) nowhere st := by
  apply (inReach_confined env st).extend
  · exact fun v hv => Allowed.held hv
  · intro u hu
    rcases allowed_table hu with hreach | ⟨hle, _⟩
    · exact Or.inl hreach
    · exact Or.inr ⟨h.fresh_empty u hle, h.fresh_bare u hle⟩

theorem confined_registered {S : Value -> Prop} {t : Nat}
    (hconfig : t ≠ env.config) (hloaded : t ≠ env.loaded)
    (fs : List (List UInt8 × Nat))
    (h : Confined env S (fun u => u = t) st) :
    Confined env S (fun u => u = t) (registered t fs st) := by
  induction fs generalizing st with
  | nil => exact h
  | cons f rest ih =>
      exact ih (h.assign (Or.inr ⟨rfl, hconfig, hloaded⟩)
        (fun hne => absurd rfl hne))

theorem confined_stripped {S : Value -> Prop} {t : Nat} (xs : List Value)
    (h : Confined env S (fun u => u = t) st) :
    Confined env S (fun u => u = t) (stripped t xs st) := by
  induction xs generalizing st with
  | nil => exact h
  | cons x rest ih =>
      exact ih (h.assign (Or.inl (h.harmless _ (isHarmless_nil env)))
        (fun hne => absurd rfl hne))

theorem confined_flagged (h : Secure env st) (name : List UInt8)
    (fs : List (List UInt8 × Nat)) :
    Confined env (Allowed env st 2) (fun u => u = st.sb.fresh)
      (flagged env name fs st) := by
  have hallowed := (h.allowed_confined 2).weaken (fun u => u = st.sb.fresh)
  have hname : Allowed env st 2 (Value.string name) :=
    hallowed.harmless _ (isHarmless_string env name)
  have hlibrary := allowed_library env st Nat.zero_lt_two
  have hmarked : Confined env (Allowed env st 2) (fun u => u = st.sb.fresh)
      (st.assign env.loaded (Value.string name)
        (Value.lightuserdata env.sentinel)) :=
    hallowed.assign (Or.inl (hallowed.harmless _
      (isHarmless_lightuserdata env env.sentinel))) (fun _ => hname)
  have hintroduced : Confined env (Allowed env st 2)
      (fun u => u = st.sb.fresh) (introduced env name st) :=
    (hmarked.addTable.assign (Or.inl hlibrary)
      (fun _ => hname)).assign (Or.inl hlibrary) (fun _ => hname)
  have hregistered := confined_registered (Nat.ne_of_gt h.config_lt)
    (Nat.ne_of_gt h.loaded_lt) fs hintroduced
  have hfilled : Confined env (Allowed env st 2) (fun u => u = st.sb.fresh)
      (filled env name fs st) :=
    hregistered.assign (Or.inl hlibrary) (fun _ => hname)
  apply hfilled.addTable.setMetatable
  intro u hu
  cases hu
  exact Allowed.table (Nat.le_succ _) (Nat.lt_succ_self _)

/-- The entries of the library are functions. -/
theorem mem_flagged (h : Secure env st) {name : List UInt8}
    {fs : List (List UInt8 × Nat)} {e : Value × Value}
    (he : e ∈ ((flagged env name fs st).tables st.sb.fresh).entries) :
    exists f, (f ∈ fs ∧ e.2 = Value.cfunction f.2) ∧
      e.1 = Value.string f.1 := by
  have hloaded := Nat.ne_of_gt h.loaded_lt
  have hglobals := Nat.ne_of_gt (h.reach_lt _ InReach.globals)
  change e ∈ ((filled env name fs st).addTable.tables _).entries at he
  rw [addTable_tables, (filled_frame env name fs st).2.2.1,
    if_neg (Nat.ne_of_lt (Nat.lt_succ_self _))] at he
  unfold filled at he
  rw [assign_tables_of_ne _ _ _ _ hloaded] at he
  rcases mem_registered _ _ he with hold | hnew
  · unfold introduced at hold
    rw [assign_tables_of_ne _ _ _ _ hloaded,
      assign_tables_of_ne _ _ _ _ hglobals, addTable_tables, assign_fresh,
      if_pos rfl] at hold
    exact absurd hold List.not_mem_nil
  · exact hnew

/-- An opened library brings no restricted function into reach. -/
theorem confined_opened (h : Secure env st) {name : List UInt8}
    {lib : Library} (hlib : env.preloaded name = some lib)
    (henabled : ¬ IsDisabled env st name) {xs : List Value}
    (hxs : Removals env st name xs) :
    Confined env (Allowed env st 2) nowhere
      (stripped st.sb.fresh xs (flagged env name lib.functions st)) := by
  have hflagged := confined_flagged h name lib.functions
  apply (confined_stripped xs hflagged).close
  intro e he
  have hstring : forall s, Allowed env st 2 (Value.string s) :=
    fun s => hflagged.harmless _ (isHarmless_string env s)
  rcases mem_stripped _ _ (fun x hx => (hxs.inReach hx).2) he with
    ⟨hnil, hkey⟩ | ⟨hmem, hnot⟩
  · rw [hnil]
    refine ⟨?_, hflagged.harmless _ (isHarmless_nil env)⟩
    rcases hkey with hx | ⟨e', he', hsame⟩
    · exact Allowed.held (hxs.inReach hx).1
    · rcases mem_flagged h he' with ⟨f, _, hname⟩
      rw [← hsame, hname]
      exact hstring f.1
  · rcases mem_flagged h hmem with ⟨f, ⟨hf, hvalue⟩, hname⟩
    rw [hvalue, hname]
    refine ⟨hstring f.1, Allowed.function ?_⟩
    intro hforbidden
    rcases hforbidden.2 name lib f.1 hlib hf with hdisabled | hremoved
    · exact henabled hdisabled
    · have hfalse := hnot _ (hxs.of_isRemoved hremoved)
      rw [hname, (isTableKey_string f.1).2] at hfalse
      cases hfalse

/-!
## The calls of `require`
-/

/-- Every library but the base library is registered under its own name. -/
def Registers (env : ModuleEnv) : Prop :=
  forall name lib, env.preloaded name = some lib ->
    name = [] ∨ RegistersAs lib name

/-- What `require` returns, whatever the fuel. -/
def Requires (env : ModuleEnv) (name : List UInt8) (st : ModuleState)
    (r : Except ModuleStop Value) (st' : ModuleState) : Prop :=
  exists n, forall fuel, n < fuel ->
    (require env fuel name).run st = (r, st')

theorem Spends.run_eq {α : Type} {x : ModuleCall α} {a : α}
    (h : Spends x st 0 a st') : x.run st = (Except.ok a, st'.setRoom st.room) :=
  h.done st.room (Nat.zero_le _)

/-- `require` changes nothing, or opens a library that is enabled. -/
theorem requires_cases (h : Secure env st) (hregisters : Registers env)
    {name : List UInt8} {r : Except ModuleStop Value}
    (hunset : st.rawget env.loaded (Value.string name) = Value.nil ->
      Unset env st name)
    (hrun : Requires env name st r st')
    (hroom : r ≠ Except.error outOfMemory) :
    st' = st ∨
      exists lib xs n, env.preloaded name = some lib ∧
        ¬ IsDisabled env st name ∧ Unset env st name ∧
        Removals env st name xs ∧ name ≠ [] ∧
        st' = (stripped st.sb.fresh xs
          (flagged env name lib.functions st)).setRoom n := by
  rcases hrun with ⟨n, hrun⟩
  have hlast := hrun (n + 1) (Nat.lt_succ_self n)
  rcases spends_isDisabled h.config_bare name with ⟨b, hspends, hb⟩
  have hdisabled : (isDisabled env name).run st = (Except.ok b, st) :=
    hspends.run_eq
  have hspends' : Spends (getfield env (Value.table env.loaded) name) st 0
      (st.rawget env.loaded (Value.string name)) st :=
    spends_getfield name (metamethod_of_bare h.loaded_bare _)
  have hget : (getfield env (Value.table env.loaded) name).run st =
      (Except.ok (st.rawget env.loaded (Value.string name)), st) :=
    hspends'.run_eq
  unfold require at hlast
  rw [Computation.run_bind_ok hdisabled] at hlast
  cases b with
  | true =>
      left
      cases hlast
      rfl
  | false =>
      change Foundation.Computation.run
        (getfield env (Value.table env.loaded) name >>= _) st = _ at hlast
      rw [Computation.run_bind_ok hget] at hlast
      by_cases htrue : (st.rawget env.loaded
          (Value.string name)).toboolean = true
      · left
        rw [if_pos htrue] at hlast
        split at hlast
        · cases hlast
          rfl
        · cases hlast
          rfl
      · rw [if_neg htrue] at hlast
        have hnil := h.loaded_values name (Bool.eq_false_iff.mpr htrue)
        cases hlib : env.preloaded name with
        | none =>
            left
            rw [hlib] at hlast
            cases hlast
            rfl
        | some lib =>
            right
            have hne : name ≠ [] := by
              intro hempty
              rw [hempty] at htrue
              exact htrue h.base
            have hregister := (hregisters name lib hlib).resolve_left hne
            have henabled : ¬ IsDisabled env st name := by
              intro hd
              cases hb.mpr hd
            rcases h.removals name with ⟨xs, hxs⟩
            rcases spends_require (h.loadable (hunset hnil)) hlib hregister
              henabled hnil hxs with ⟨c, k, hopen⟩
            have hspent := hopen (max n k + 1) (by omega)
            have hresult := hrun (max n k + 1) (by omega)
            cases r with
            | error e =>
                rw [hspent.of_error hresult] at hroom
                exact absurd rfl hroom
            | ok v =>
                rcases hspent.of_ok hresult with ⟨_, m, hm⟩
                exact ⟨lib, xs, m, rfl, henabled, hunset hnil, hxs, hne, hm⟩

/-!
## Steps of a plugin
-/

/-- A set that nothing leads out of judges the state behind a step. -/
theorem Guarded.of_confined (h : Guarded env st)
    (hsame : SameRestrictions env st st') {S : Value -> Prop}
    (hconfined : Confined env S nowhere st')
    (hfresh : st.sb.fresh <= st'.sb.fresh)
    (hlt : forall u, S (Value.table u) -> u < st'.sb.fresh)
    (hconfig : ¬ S (Value.table env.config))
    (hloaded : ¬ S (Value.table env.loaded))
    (hlawful : forall f, S (Value.cfunction f) -> ¬ Forbidden env st f)
    (hbare : forall u, ConfigTable env st u ∨ u = env.loaded ->
      st'.metatable u = none)
    (hvalues : forall name,
      (st'.rawget env.loaded (Value.string name)).toboolean = false ->
        st'.rawget env.loaded (Value.string name) = Value.nil)
    (hempty : forall u, st'.sb.fresh <= u -> (st'.tables u).entries = [])
    (hnone : forall u, st'.sb.fresh <= u -> st'.metatable u = none) :
    Guarded env st' where
  globals_config := fun hu => h.globals_config (hsame.configTable.mp hu)
  config_bare := fun u hu => hbare u (Or.inl (hsame.configTable.mp hu))
  config_lt := Nat.lt_of_lt_of_le h.config_lt hfresh
  config_private := fun hv => hconfig (hconfined.of_inReach hv)
  loaded_bare := hbare _ (Or.inr rfl)
  loaded_lt := Nat.lt_of_lt_of_le h.loaded_lt hfresh
  loaded_private := fun hv => hloaded (hconfined.of_inReach hv)
  loaded_ne := h.loaded_ne
  loaded_values := hvalues
  reach_lt := fun u hu => hlt u (hconfined.of_inReach hu)
  fresh_empty := hempty
  fresh_bare := hnone
  lists := by
    intro name l hl
    have hl' := hsame.symm.hasList hl
    rcases h.lists name l hl' with ⟨n, hnil, hkeys⟩
    have heq : forall i, listAt st' l i = listAt st l i :=
      fun i => hsame.rawget hl'.configTable _
    refine ⟨n, ?_, ?_⟩
    · rw [heq n]
      exact hnil
    · intro i hi
      rw [heq i]
      exact hkeys i hi
  lawful := by
    intro f hf hforbidden
    exact hlawful f (hconfined.of_inReach hf) (hsame.forbidden hforbidden)

/-- Where the loader's tables stay as they are. -/
theorem Secure.of_reach (h : Secure env st)
    (htables : forall u, ConfigTable env st u ∨ u = env.loaded ->
      st'.tables u = st.tables u ∧ st'.metatable u = st.metatable u)
    (hconfined : Confined env (InReach env st) nowhere st')
    (hfresh : st'.sb.fresh = st.sb.fresh)
    (hempty : forall u, st.sb.fresh <= u ->
      st'.tables u = st.tables u ∧ st'.metatable u = st.metatable u) :
    Secure env st' ∧ SameRestrictions env st st' := by
  have hsame : SameRestrictions env st st' :=
    fun u hu => (htables u (Or.inl hu)).1
  have hloaded : forall key, st'.rawget env.loaded key =
      st.rawget env.loaded key := by
    intro key
    unfold ModuleState.rawget
    rw [(htables _ (Or.inr rfl)).1]
  have hbase : (st'.rawget env.loaded (Value.string [])).toboolean = true := by
    rw [hloaded]
    exact h.base
  refine ⟨⟨h.of_confined hsame hconfined (Nat.le_of_eq hfresh.symm) ?_
    h.config_private h.loaded_private h.lawful ?_ ?_ ?_ ?_, hbase⟩, hsame⟩
  · intro u hu
    rw [hfresh]
    exact h.reach_lt u hu
  · intro u hu
    rw [(htables u hu).2]
    rcases hu with hu | rfl
    · exact h.config_bare u hu
    · exact h.loaded_bare
  · intro name
    rw [hloaded]
    exact h.loaded_values name
  · intro u hu
    rw [hfresh] at hu
    rw [(hempty u hu).1]
    exact h.fresh_empty u hu
  · intro u hu
    rw [hfresh] at hu
    rw [(hempty u hu).2]
    exact h.fresh_bare u hu

/-- Opening a library keeps the state secure. -/
theorem Secure.opened (h : Secure env st) {name : List UInt8} {lib : Library}
    (hlib : env.preloaded name = some lib)
    (henabled : ¬ IsDisabled env st name) (hunset : Unset env st name)
    (hname : name ≠ []) {xs : List Value} (hxs : Removals env st name xs)
    (n : Nat) :
    Secure env ((stripped st.sb.fresh xs
      (flagged env name lib.functions st)).setRoom n) ∧
    SameRestrictions env st ((stripped st.sb.fresh xs
      (flagged env name lib.functions st)).setRoom n) := by
  have hload := h.loadable hunset
  rcases stripped_frame st.sb.fresh (flagged env name lib.functions st) xs
    with ⟨htables, hmeta, hfresh, _⟩
  have hfresh' : (stripped st.sb.fresh xs
      (flagged env name lib.functions st)).sb.fresh = st.sb.fresh + 2 := by
    rw [hfresh]
    exact congrArg (fun k => k + 1)
      (filled_frame env name lib.functions st).2.2.1
  have hsame : SameRestrictions env st ((stripped st.sb.fresh xs
      (flagged env name lib.functions st)).setRoom n) := by
    intro u hu
    exact (htables u (hload.config_ne hu).2.2).trans
      (flagged_tables hload lib.functions hu)
  have hloaded : forall key, ((stripped st.sb.fresh xs
      (flagged env name lib.functions st)).setRoom n).rawget env.loaded
        (Value.string key) =
      if key = name then Value.table st.sb.fresh
      else st.rawget env.loaded (Value.string key) := by
    intro key
    rw [← flagged_loaded hload lib.functions key]
    change RawTable.rawget ((stripped _ _ _).tables _) _ = _
    rw [htables _ (Nat.ne_of_lt h.loaded_lt)]
    rfl
  have hbeyond : forall u, st.sb.fresh + 2 <= u ->
      (stripped st.sb.fresh xs
        (flagged env name lib.functions st)).tables u = st.tables u := by
    intro u hu
    rw [htables u (by omega)]
    change (filled env name lib.functions st).addTable.tables u = _
    rw [addTable_tables, (filled_frame env name lib.functions st).2.2.1,
      if_neg (by omega)]
    have hlt := h.loaded_lt
    have hglt := hload.globals_lt
    exact (filled_frame env name lib.functions st).1 u (by omega) (by omega)
      (by omega)
  have hbase : (((stripped st.sb.fresh xs
      (flagged env name lib.functions st)).setRoom n).rawget env.loaded
        (Value.string [])).toboolean = true := by
    rw [hloaded, if_neg hname.symm]
    exact h.base
  refine ⟨⟨h.of_confined hsame
    ((confined_opened h hlib henabled hxs).setRoom n) ?_ ?_ ?_ ?_ ?_ ?_ ?_ ?_
    ?_, hbase⟩, hsame⟩
  · change st.sb.fresh <= (stripped _ _ _).sb.fresh
    rw [hfresh']
    exact Nat.le_add_right _ _
  · intro u hu
    change u < (stripped _ _ _).sb.fresh
    rw [hfresh']
    rcases allowed_table hu with hreach | ⟨_, hlt⟩
    · exact Nat.lt_add_right 2 (h.reach_lt u hreach)
    · exact hlt
  · intro hu
    rcases allowed_table hu with hreach | ⟨hge, _⟩
    · exact h.config_private hreach
    · exact absurd h.config_lt (Nat.not_lt_of_ge hge)
  · intro hu
    rcases allowed_table hu with hreach | ⟨hge, _⟩
    · exact h.loaded_private hreach
    · exact absurd h.loaded_lt (Nat.not_lt_of_ge hge)
  · intro f hf
    cases hf with
    | held hreach => exact h.lawful f hreach
    | function hallowed => exact hallowed
  · intro u hu
    change (stripped _ _ _).metatable u = none
    rw [hmeta, flagged_metatable]
    rcases hu with hu | rfl
    · rw [if_neg (hload.config_ne hu).2.2]
      exact h.config_bare u hu
    · rw [if_neg (Nat.ne_of_lt h.loaded_lt)]
      exact h.loaded_bare
  · intro key hkey
    rw [hloaded] at hkey ⊢
    split at hkey
    · cases hkey
    · rename_i hne
      rw [if_neg hne]
      exact h.loaded_values key hkey
  · intro u hu
    change (stripped _ _ _).sb.fresh <= u at hu
    rw [hfresh'] at hu
    change ((stripped _ _ _).tables u).entries = []
    rw [hbeyond u hu]
    exact h.fresh_empty u (by omega)
  · intro u hu
    change (stripped _ _ _).sb.fresh <= u at hu
    rw [hfresh'] at hu
    change (stripped _ _ _).metatable u = none
    rw [hmeta, flagged_metatable, if_neg (by omega)]
    exact h.fresh_bare u (by omega)

/-- What a plugin does; what it takes from `read_config` and from tables is in
its reach. -/
inductive PluginAction where
  | newtable
  | keep (v : Value)
  | assign (t : Nat) (key value : Value)
  | setmetatable (t : Nat) (m : Option Nat)
  /-- Its own allocations, and garbage that is collected. -/
  | collect (room : Nat)
  | require (name : List UInt8)

inductive PluginStep (env : ModuleEnv) (st : ModuleState) :
    PluginAction -> ModuleState -> Prop where
  | newtable {t : Nat} {st' : ModuleState}
      (h : luaNewtable.run st = (Except.ok t, st')) :
      PluginStep env st PluginAction.newtable (st'.give [Value.table t])
  | keep {v : Value} (h : InReach env st v) :
      PluginStep env st (PluginAction.keep v) (st.give [v])
  | assign {t : Nat} {key value : Value}
      (ht : InReach env st (Value.table t)) (hkey : InReach env st key)
      (hvalue : InReach env st value) :
      PluginStep env st (PluginAction.assign t key value)
        (st.assign t key value)
  | setmetatable {t : Nat} {m : Option Nat}
      (ht : InReach env st (Value.table t))
      (hm : forall u, m = some u -> InReach env st (Value.table u)) :
      PluginStep env st (PluginAction.setmetatable t m) (st.setMetatable t m)
  | collect (room : Nat) :
      PluginStep env st (PluginAction.collect room) (st.setRoom room)
  | require {name : List UInt8} {r : Except ModuleStop Value}
      {st' : ModuleState} (h : Requires env name st r st') :
      PluginStep env st (PluginAction.require name) st'

/-- The plugin leaves the tables of the restrictions alone, and the global of a
library that is not loaded yet. -/
def Restrained (env : ModuleEnv) (st : ModuleState) : PluginAction -> Prop
  | PluginAction.assign t _ _ => ¬ ConfigTable env st t
  | PluginAction.setmetatable t _ => ¬ ConfigTable env st t
  | PluginAction.require name =>
      st.rawget env.loaded (Value.string name) = Value.nil ->
        Unset env st name
  | _ => True

/-- A call of `require` does not run out of memory. -/
def HasRoom (env : ModuleEnv) (st : ModuleState) : PluginAction -> Prop
  | PluginAction.require name => forall st',
      ¬ Requires env name st (Except.error outOfMemory) st'
  | _ => True

theorem Secure.newtable (h : Secure env st) (n : Nat) :
    Secure env ((st.addTable.setRoom n).give [Value.table st.sb.fresh]) ∧
    SameRestrictions env st
      ((st.addTable.setRoom n).give [Value.table st.sb.fresh]) := by
  have hold : forall u, u < st.sb.fresh ->
      st.addTable.tables u = st.tables u :=
    fun u hu => addTable_tables_of_ne (Nat.ne_of_lt hu)
  have hsame : SameRestrictions env st
      ((st.addTable.setRoom n).give [Value.table st.sb.fresh]) :=
    fun u hu => hold u (h.configTable_lt hu)
  have hloaded : forall key, ((st.addTable.setRoom n).give
      [Value.table st.sb.fresh]).rawget env.loaded key =
        st.rawget env.loaded key := by
    intro key
    change RawTable.rawget (st.addTable.tables _) _ = _
    rw [hold _ h.loaded_lt]
    rfl
  have hconfined : Confined env
      (fun v => InReach env st v ∨ v = Value.table st.sb.fresh) nowhere
      ((st.addTable.setRoom n).give [Value.table st.sb.fresh]) := by
    have hextended : Confined env
        (fun v => InReach env st v ∨ v = Value.table st.sb.fresh) nowhere
        st := by
      apply (inReach_confined env st).extend
      · exact fun v hv => Or.inl hv
      · rintro u (hu | hu)
        · exact Or.inl hu
        · cases hu
          exact Or.inr ⟨h.fresh_empty _ (Nat.le_refl _),
            h.fresh_bare _ (Nat.le_refl _)⟩
    apply (hextended.addTable.setRoom n).give
    intro v hv
    exact Or.inr (List.mem_singleton.mp hv)
  have hbase : (((st.addTable.setRoom n).give
      [Value.table st.sb.fresh]).rawget env.loaded
        (Value.string [])).toboolean = true := by
    rw [hloaded]
    exact h.base
  refine ⟨⟨h.of_confined hsame hconfined (Nat.le_succ _) ?_ ?_ ?_ ?_ ?_ ?_
    ?_ ?_, hbase⟩, hsame⟩
  · rintro u (hu | hu)
    · exact Nat.lt_succ_of_lt (h.reach_lt u hu)
    · cases hu
      exact Nat.lt_succ_self _
  · rintro (hu | hu)
    · exact h.config_private hu
    · exact Nat.ne_of_lt h.config_lt (Value.table.inj hu)
  · rintro (hu | hu)
    · exact h.loaded_private hu
    · exact Nat.ne_of_lt h.loaded_lt (Value.table.inj hu)
  · rintro f (hf | hf)
    · exact h.lawful f hf
    · cases hf
  · rintro u (hu | rfl)
    · exact h.config_bare u hu
    · exact h.loaded_bare
  · intro name
    rw [hloaded]
    exact h.loaded_values name
  · intro u hu
    change st.sb.fresh + 1 <= u at hu
    change (st.addTable.tables u).entries = []
    rw [addTable_tables_of_ne (by omega)]
    exact h.fresh_empty u (by omega)
  · intro u hu
    change st.sb.fresh + 1 <= u at hu
    exact h.fresh_bare u (by omega)

/-- A step keeps the state secure. -/
theorem Secure.step (h : Secure env st) (hregisters : Registers env)
    {a : PluginAction} (hstep : PluginStep env st a st')
    (hrestrained : Restrained env st a) (hroom : HasRoom env st a) :
    Secure env st' ∧ SameRestrictions env st st' := by
  have hreach := inReach_confined env st
  cases hstep with
  | newtable hrun =>
      rcases Spends.newtable.of_ok hrun with ⟨rfl, n, rfl⟩
      exact h.newtable n
  | keep hv =>
      rename_i v
      have hgiven : Confined env (InReach env st) nowhere (st.give [v]) := by
        apply hreach.give
        intro w hmem
        rw [List.mem_singleton.mp hmem]
        exact hv
      exact h.of_reach (fun _ _ => ⟨rfl, rfl⟩) hgiven rfl
        (fun _ _ => ⟨rfl, rfl⟩)
  | assign ht hkey hvalue =>
      rename_i t key value
      have hne : t ≠ env.loaded := by
        intro heq
        rw [heq] at ht
        exact h.loaded_private ht
      have hlt := h.reach_lt t ht
      apply h.of_reach _ (hreach.assign (Or.inl hvalue) (fun _ => hkey))
        (assign_fresh _ _ _ _)
      · intro u hu
        exact ⟨assign_tables_of_ne _ _ _ _ (Nat.ne_of_gt
          (Nat.lt_of_lt_of_le hlt hu)), by rw [assign_metatable]⟩
      · intro u hu
        refine ⟨assign_tables_of_ne _ _ _ _ ?_, by rw [assign_metatable]⟩
        rintro rfl
        rcases hu with hu | hu
        · exact hrestrained hu
        · exact hne hu
  | setmetatable ht hm =>
      rename_i t m
      have hne : t ≠ env.loaded := by
        intro heq
        rw [heq] at ht
        exact h.loaded_private ht
      have hlt := h.reach_lt t ht
      apply h.of_reach _ (hreach.setMetatable hm) rfl
      · intro u hu
        exact ⟨rfl, if_neg (Nat.ne_of_gt (Nat.lt_of_lt_of_le hlt hu))⟩
      · intro u hu
        refine ⟨rfl, if_neg ?_⟩
        rintro rfl
        rcases hu with hu | hu
        · exact hrestrained hu
        · exact hne hu
  | collect n =>
      exact h.of_reach (fun _ _ => ⟨rfl, rfl⟩) (hreach.setRoom n) rfl
        (fun _ _ => ⟨rfl, rfl⟩)
  | require hrun =>
      rename_i name r
      have hr : r ≠ Except.error outOfMemory := by
        intro heq
        rw [heq] at hrun
        exact hroom _ hrun
      rcases requires_cases h hregisters hrestrained hrun hr with rfl |
        ⟨lib, xs, n, hlib, henabled, hunset, hxs, hname, rfl⟩
      · exact ⟨h, fun _ _ => rfl⟩
      · exact h.opened hlib henabled hunset hname hxs n

/-!
## Runs
-/

inductive RestrainedRun (env : ModuleEnv) (st : ModuleState) :
    ModuleState -> Prop where
  | start : RestrainedRun env st st
  | step {a : PluginAction} {st' st'' : ModuleState}
      (h : RestrainedRun env st st') (hstep : PluginStep env st' a st'')
      (hrestrained : Restrained env st' a) (hroom : HasRoom env st' a) :
      RestrainedRun env st st''

theorem Secure.run (h : Secure env st) (hregisters : Registers env)
    (hrun : RestrainedRun env st st') :
    Secure env st' ∧ SameRestrictions env st st' := by
  induction hrun with
  | start => exact ⟨h, fun _ _ => rfl⟩
  | step _ hstep hrestrained hroom ih =>
      rcases ih.1.step hregisters hstep hrestrained hroom with ⟨hnext, hsame⟩
      exact ⟨hnext, ih.2.trans hsame⟩

end

/-!
A sandbox with the configuration `disable_modules = {io = true}` and
`remove_entries = {os = {"execute"}}`.
-/

def sampleLibrary (name : List UInt8) : Option Library :=
  if name = [] then some ⟨ascii "_G", [(ascii "next", 1)]⟩
  else if name = ascii "io" then some ⟨ascii "io", [(ascii "open", 2)]⟩
  else if name = ascii "os" then
    some ⟨ascii "os", [(ascii "execute", 3), (ascii "time", 4)]⟩
  else none

def sampleModuleEnv : ModuleEnv where
  globals := 0
  loaded := 1
  config := 2
  sentinel := 0
  preloaded := sampleLibrary
  call := fun _ _ st => (CallResult.returned [], st)

def sampleTables : Nat -> RawTable
  | 1 => RawTable.empty.setfield [] (Value.table 0)
  | 2 => (RawTable.empty.setfield (ascii "disable_modules")
      (Value.table 3)).setfield (ascii "remove_entries") (Value.table 4)
  | 3 => RawTable.empty.setfield (ascii "io") (Value.boolean true)
  | 4 => RawTable.empty.setfield (ascii "os") (Value.table 5)
  | 5 => RawTable.empty.rawseti 1 (luaString "execute")
  | _ => RawTable.empty

def sampleModules : ModuleState where
  sb := ⟨6, sampleTables⟩
  metatable := fun _ => none
  given := []
  room := 1000

/-- What the plugin reaches before it requires anything. -/
def SampleReach (v : Value) : Prop :=
  v = Value.table 0 ∨ v = Value.table 3 ∨ v = Value.table 4 ∨
    v = Value.table 5 ∨ IsHarmless sampleModuleEnv v

theorem rawget_of_entries {S : Value -> Prop} {T : RawTable}
    (hnil : S Value.nil) (h : forall e, e ∈ T.entries -> S e.2)
    (key : Value) : S (T.rawget key) := by
  by_cases hv : T.rawget key = Value.nil
  · rw [hv]
    exact hnil
  · rcases rawlookup_mem hv with ⟨k, hmem, _⟩
    exact h _ hmem

theorem sampleReach_nil : SampleReach Value.nil :=
  Or.inr (Or.inr (Or.inr (Or.inr (isHarmless_nil _))))

theorem sampleReach_string (s : List UInt8) : SampleReach (Value.string s) :=
  Or.inr (Or.inr (Or.inr (Or.inr (isHarmless_string _ s))))

theorem sampleReach_table {u : Nat} (h : SampleReach (Value.table u)) :
    u = 0 ∨ u = 3 ∨ u = 4 ∨ u = 5 := by
  rcases h with h | h | h | h | h
  · exact Or.inl (Value.table.inj h)
  · exact Or.inr (Or.inl (Value.table.inj h))
  · exact Or.inr (Or.inr (Or.inl (Value.table.inj h)))
  · exact Or.inr (Or.inr (Or.inr (Value.table.inj h)))
  · exact absurd rfl (h.1 u)

theorem sampleReach_number (d : Double) : SampleReach (Value.number d) :=
  Or.inr (Or.inr (Or.inr (Or.inr
    ⟨fun _ => Value.noConfusion, fun _ _ _ _ h => Value.noConfusion h⟩)))

theorem sampleReach_boolean (b : Bool) : SampleReach (Value.boolean b) :=
  Or.inr (Or.inr (Or.inr (Or.inr
    ⟨fun _ => Value.noConfusion, fun _ _ _ _ h => Value.noConfusion h⟩)))

theorem sampleModules_confined :
    Confined sampleModuleEnv SampleReach nowhere sampleModules where
  globals := Or.inl rfl
  given := fun _ h => absurd h List.not_mem_nil
  harmless := fun _ h => Or.inr (Or.inr (Or.inr (Or.inr h)))
  config := by
    intro name
    apply rawget_of_entries sampleReach_nil
    intro e he
    have hentries : (sampleTables 2).entries =
        [(luaString "disable_modules", Value.table 3),
          (luaString "remove_entries", Value.table 4)] := rfl
    change e ∈ (sampleTables 2).entries at he
    rw [hentries] at he
    rcases List.mem_cons.mp he with rfl | he
    · exact Or.inr (Or.inl rfl)
    · rcases List.mem_singleton.mp he with rfl
      exact Or.inr (Or.inr (Or.inl rfl))
  loaded := by
    intro name
    apply rawget_of_entries sampleReach_nil
    intro e he
    rcases List.mem_singleton.mp he with rfl
    exact Or.inl rfl
  entry := by
    intro t e _ ht he
    rcases sampleReach_table ht with rfl | rfl | rfl | rfl
    · exact absurd he List.not_mem_nil
    · rcases List.mem_singleton.mp he with rfl
      exact ⟨sampleReach_string _, sampleReach_boolean _⟩
    · rcases List.mem_singleton.mp he with rfl
      exact ⟨sampleReach_string _, Or.inr (Or.inr (Or.inr (Or.inl rfl)))⟩
    · rcases List.mem_singleton.mp he with rfl
      exact ⟨sampleReach_number _, sampleReach_string _⟩
  metatable := by
    intro t m _ hm
    cases hm

theorem sample_configTable {u : Nat}
    (hu : ConfigTable sampleModuleEnv sampleModules u) :
    u = 2 ∨ u = 3 ∨ u = 4 ∨ u = 5 := by
  rcases inReach_configTable hu with h | h
  · exact Or.inl h
  · rcases sampleReach_table (sampleModules_confined.of_inReach h) with
      rfl | h
    · exfalso
      cases hu with
      | disabled hd => cases hd
      | removed hr => cases hr
      | list hr hl =>
          cases hr
          revert hl
          apply rawget_of_entries (S := fun v => v ≠ Value.table 0)
          · exact Value.noConfusion
          · intro e he
            rcases List.mem_singleton.mp he with rfl
            exact fun h => Nat.noConfusion (Value.table.inj h)
    · exact Or.inr h

theorem sample_listAt_zero :
    listAt sampleModules 5 0 = Value.string (ascii "execute") := by
  change (RawTable.empty.rawseti 1 (luaString "execute")).rawget
    (integer (toInt 1)) = _
  unfold RawTable.rawseti
  rw [RawTable.rawget_rawset]
  exact if_pos (isTableKey_integer 1).2

theorem sample_listAt_one : listAt sampleModules 5 1 = Value.nil := by
  change (RawTable.empty.rawseti 1 (luaString "execute")).rawget
    (integer (toInt 2)) = _
  unfold RawTable.rawseti
  rw [RawTable.rawget_rawset]
  apply if_neg
  change ¬ Double.Value.eq (Double.ofInt (toInt 1)).value
    (Double.ofInt (toInt 2)).value = true
  rw [value_integer_toInt, value_integer_toInt]
  decide

theorem sample_hasList {name : List UInt8} {l : Nat}
    (h : HasList sampleModuleEnv sampleModules name l) :
    name = ascii "os" ∧ l = 5 := by
  rcases h with ⟨r, hr, hl⟩
  cases hr
  have hentry : (sampleTables 4).rawget (Value.string name) =
      if rawequal (luaString "os") (Value.string name) then Value.table 5
      else Value.nil := rfl
  change (sampleTables 4).rawget (Value.string name) = _ at hl
  rw [hentry] at hl
  split at hl
  · rename_i hname
    have hstring : (luaString "os").type ≠ LuaType.number :=
      LuaType.noConfusion
    have hname' := (rawequal_of_ne_number hstring).mp hname
    cases hl
    exact ⟨(Value.string.inj hname').symm, rfl⟩
  · cases hl

theorem sampleModules_secure : Secure sampleModuleEnv sampleModules where
  globals_config := by
    intro hu
    rcases sample_configTable hu with h | h | h | h <;> cases h
  config_bare := fun _ _ => rfl
  config_lt := by decide
  config_private := by
    intro hu
    rcases sampleReach_table (sampleModules_confined.of_inReach hu) with
      h | h | h | h <;> cases h
  loaded_bare := rfl
  loaded_lt := by decide
  loaded_private := by
    intro hu
    rcases sampleReach_table (sampleModules_confined.of_inReach hu) with
      h | h | h | h <;> cases h
  loaded_ne := by decide
  loaded_values := by
    intro name
    apply rawget_of_entries (S := fun v => v.toboolean = false -> v = Value.nil)
    · exact fun _ => rfl
    · intro e he
      rcases List.mem_singleton.mp he with rfl
      exact Bool.noConfusion
  base := rfl
  reach_lt := by
    intro u hu
    rcases sampleReach_table (sampleModules_confined.of_inReach hu) with
      rfl | rfl | rfl | rfl <;> decide
  fresh_empty := by
    intro u hu
    have hlt : 6 <= u := hu
    change (sampleTables u).entries = []
    unfold sampleTables
    split
    · omega
    · omega
    · omega
    · omega
    · omega
    · rfl
  fresh_bare := fun _ _ => rfl
  lists := by
    intro name l hl
    rcases sample_hasList hl with ⟨_, rfl⟩
    refine ⟨1, sample_listAt_one, ?_⟩
    intro i hi
    rcases Nat.lt_one_iff.mp hi with rfl
    rw [sample_listAt_zero]
    exact isTableKey_string _
  lawful := by
    intro f hf hforbidden
    rcases sampleModules_confined.of_inReach hf with h | h | h | h | h
    · cases h
    · cases h
    · cases h
    · cases h
    · rcases hforbidden.1 with ⟨name, lib, key, hlib, hmem⟩
      exact h.2 f name lib key rfl hlib hmem

theorem sampleModuleEnv_registers : Registers sampleModuleEnv := by
  intro name lib hlib
  change sampleLibrary name = some lib at hlib
  unfold sampleLibrary at hlib
  split at hlib
  · exact Or.inl ‹_›
  · right
    split at hlib
    · rename_i hname
      cases hlib
      rw [hname]
      exact ⟨rfl, by decide, by decide⟩
    · split at hlib
      · rename_i hname
        cases hlib
        rw [hname]
        exact ⟨rfl, by decide, by decide⟩
      · cases hlib

/-- `os.execute` is registered once. -/
theorem sample_execute {name key : List UInt8} {lib : Library}
    (hlib : sampleModuleEnv.preloaded name = some lib)
    (hmem : (key, 3) ∈ lib.functions) :
    name = ascii "os" ∧ key = ascii "execute" := by
  change sampleLibrary name = some lib at hlib
  unfold sampleLibrary at hlib
  split at hlib
  · cases hlib
    cases (Prod.mk.inj (List.mem_singleton.mp hmem)).2
  · split at hlib
    · cases hlib
      cases (Prod.mk.inj (List.mem_singleton.mp hmem)).2
    · split at hlib
      · rename_i hname
        cases hlib
        refine ⟨hname, ?_⟩
        rcases List.mem_cons.mp hmem with h | h
        · exact (Prod.mk.inj h).1
        · rcases List.mem_singleton.mp h with h
          cases (Prod.mk.inj h).2
      · cases hlib

/-- `os.execute` is restricted. -/
theorem sample_forbidden : Forbidden sampleModuleEnv sampleModules 3 := by
  constructor
  · exact ⟨ascii "os", _, ascii "execute", rfl, List.mem_cons_self⟩
  · intro name lib key hlib hmem
    right
    rcases sample_execute hlib hmem with ⟨hname, hkey⟩
    rw [hname, hkey]
    refine ⟨5, 0, ⟨4, rfl, rfl⟩, ?_, sample_listAt_zero⟩
    intro i hi
    rcases Nat.le_zero.mp hi with rfl
    rw [sample_listAt_zero]
    exact Value.noConfusion

end Core
end LuaSandbox
