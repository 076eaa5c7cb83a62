import LuaSandbox.Core.RestrictedRuns

/-!
# Ways around the restrictions

What the conditions of a restrained run are for: a plugin that changes the
tables of the configuration, or lets `require` run out of memory, gets the
functions that it should not have.
-/

namespace LuaSandbox
namespace Core

open Foundation Lua

section

variable {env : ModuleEnv} {st : ModuleState} {name : List UInt8}

/-- What is registered in the table of a loaded module is in reach. -/
theorem inReach_registered (name : List UInt8) {s s' : ModuleState} {t : Nat}
    {fs : List (List UInt8 × Nat)} (hnodup : (fs.map Prod.fst).Nodup)
    (hloaded : s.rawget env.loaded (Value.string name) = Value.table t)
    (htable : s.tables t = (registered t fs s').tables t)
    {f : List UInt8 × Nat} (hf : f ∈ fs) :
    InReach env s (Value.cfunction f.2) := by
  have hmodule : InReach env s (Value.table t) := by
    rw [← hloaded]
    exact InReach.loaded name
  have hentry := inReach_rawget hmodule (Value.string f.1)
  have hvalue : s.rawget t (Value.string f.1) = Value.cfunction f.2 := by
    rw [← registered_rawget t hnodup hf s']
    unfold ModuleState.rawget
    rw [htable]
  rw [hvalue] at hentry
  exact hentry

theorem filled_tables_library (h : Loadable env st name)
    (fs : List (List UInt8 × Nat)) :
    (filled env name fs st).tables st.sb.fresh =
      (registered st.sb.fresh fs (introduced env name st)).tables
        st.sb.fresh := by
  unfold filled
  exact assign_tables_of_ne _ _ _ _ (Nat.ne_of_gt h.loaded_lt)

theorem flagged_tables_library (h : Loadable env st name)
    (fs : List (List UInt8 × Nat)) :
    (flagged env name fs st).tables st.sb.fresh =
      (registered st.sb.fresh fs (introduced env name st)).tables
        st.sb.fresh := by
  rw [← filled_tables_library h fs]
  change (filled env name fs st).addTable.tables _ = _
  rw [addTable_tables, (filled_frame env name fs st).2.2.1,
    if_neg (Nat.ne_of_lt (Nat.lt_succ_self _))]

/-!
## Running out of memory
-/

/-- What `require` does with a module that is loaded. -/
theorem require_loaded (st : ModuleState) {t : Nat}
    (hbare : forall u, ConfigTable env st u ->
    st.metatable u = none) (hloaded : st.metatable env.loaded = none)
    (henabled : ¬ IsDisabled env st name)
    (hmodule : st.rawget env.loaded (Value.string name) = Value.table t)
    (fuel : Nat) :
    (require env fuel name).run st = (Except.ok (Value.table t), st) := by
  rcases spends_isDisabled hbare name with ⟨b, hspends, hb⟩
  have hfalse : b = false := by
    cases b with
    | false => rfl
    | true => exact absurd (hb.mp rfl) henabled
  rw [hfalse] at hspends
  have hdisabled : (isDisabled env name).run st = (Except.ok false, st) :=
    hspends.run_eq
  have hspends' : Spends (getfield env (Value.table env.loaded) name) st 0
      (st.rawget env.loaded (Value.string name)) st :=
    spends_getfield name (metamethod_of_bare hloaded _)
  rw [hmodule] at hspends'
  have hget : (getfield env (Value.table env.loaded) name).run st =
      (Except.ok (Value.table t), st) := hspends'.run_eq
  unfold require
  rw [Computation.run_bind_ok hdisabled]
  change Foundation.Computation.run
    (getfield env (Value.table env.loaded) name >>= _) st
    = _
  rw [Computation.run_bind_ok hget]
  rfl

theorem filled_same (h : Loadable env st name)
    (fs : List (List UInt8 × Nat)) :
    SameRestrictions env st (filled env name fs st) := by
  intro u hu
  rcases h.config_ne hu with ⟨hloaded, hglobals, hne⟩
  exact (filled_frame env name fs st).1 u hloaded hglobals hne

section

variable {d : Nat}

theorem clear_rawget (st : ModuleState) (d : Nat) (name : List UInt8)
    (u : Nat) (key : Value) :
    (st.assign d (Value.string name) Value.nil).rawget u key = Value.nil ∨
      (st.assign d (Value.string name) Value.nil).rawget u key =
        st.rawget u key := by
  by_cases hu : u = d
  · subst hu
    rw [assign_rawget _ _ _ (isTableKey_string name)]
    split
    · exact Or.inl rfl
    · exact Or.inr rfl
  · exact Or.inr (assign_rawget_of_ne _ _ _ _ hu _)

theorem clear_configTable (hd : d ≠ env.config) {u : Nat}
    (hu : ConfigTable env (st.assign d (Value.string name) Value.nil) u) :
    ConfigTable env st u := by
  have hconfig := fun key => assign_rawget_of_ne st d (Value.string name)
    Value.nil (Ne.symm hd) key
  cases hu with
  | config => exact ConfigTable.config
  | disabled hd' =>
      rw [hconfig] at hd'
      exact ConfigTable.disabled hd'
  | removed hr =>
      rw [hconfig] at hr
      exact ConfigTable.removed hr
  | list hr hl =>
      rename_i r key
      rw [hconfig] at hr
      rcases clear_rawget st d name r (Value.string key) with
        hnil | hsame
      · rw [hnil] at hl
        cases hl
      · rw [hsame] at hl
        exact ConfigTable.list hr hl

/-- Nothing new is in the way of the library when its entry is cleared. -/
theorem Secure.clear_loadable (h : Secure env st)
    (hd : st.rawget env.config (luaString "disable_modules") = Value.table d)
    (hunset : Unset env st name) :
    Loadable env (st.assign d (Value.string name) Value.nil) name := by
  have hload := h.loadable hunset
  have hconfig : d ≠ env.config := by
    intro heq
    have hreach : InReach env st (Value.table d) := by
      rw [← hd]
      exact InReach.config _
    rw [heq] at hreach
    exact h.config_private hreach
  have hold : forall u, ConfigTable env
      (st.assign d (Value.string name) Value.nil) u ->
      ConfigTable env st u := fun _ hu => clear_configTable hconfig hu
  constructor
  · intro u hu
    rw [assign_metatable]
    exact hload.config_bare u (hold u hu)
  · intro u hu
    rw [assign_fresh]
    exact hload.config_lt u (hold u hu)
  · rw [assign_metatable]
    exact hload.loaded_bare
  · rw [assign_fresh]
    exact hload.loaded_lt
  · exact fun hu => hload.loaded_config (hold _ hu)
  · rw [assign_fresh]
    exact hload.globals_lt
  · exact hload.globals_ne
  · exact fun hu => hload.globals_config (hold _ hu)
  · rw [assign_metatable, assign_fresh]
    exact hload.handlers
  · cases hm : st.metatable env.globals with
    | none =>
        apply metamethod_of_bare
        rw [assign_metatable]
        exact hm
    | some m =>
        have hm' : (st.assign d (Value.string name) Value.nil).metatable
            env.globals = some m := by
          rw [assign_metatable]
          exact hm
        have hnew := hunset.newindex
        rw [metamethod_of_some hm] at hnew
        rw [metamethod_of_some hm']
        rcases clear_rawget st d name m (luaString "__newindex") with
          hnil | hsame
        · exact hnil
        · rw [hsame]
          exact hnew
  · rw [assign_fresh, assign_metatable]
    exact hload.fresh_bare
  · rcases clear_rawget st d name env.globals (Value.string name) with
      hnil | hsame
    · exact hnil
    · rw [hsame]
      exact hunset.unset

end

end

/-!
The two ways in the sandbox that restricts `io` and `os.execute`.
-/

theorem sample_unset (name : List UInt8) :
    Unset sampleModuleEnv sampleModules name := ⟨rfl, rfl⟩

theorem sample_enabled :
    ¬ IsDisabled sampleModuleEnv sampleModules (ascii "os") := by
  rintro ⟨d, hd, hentry⟩
  cases hd
  exact hentry rfl

theorem sample_disabled :
    IsDisabled sampleModuleEnv sampleModules (ascii "io") :=
  ⟨3, rfl, Value.noConfusion⟩

theorem sample_no_list (l : Nat) :
    ¬ HasList sampleModuleEnv sampleModules (ascii "io") l := by
  intro h
  exact absurd (sample_hasList h).1 (by decide)

end Core
end LuaSandbox
