import LuaSandbox.Core.BaseLibrary
import LuaSandbox.Heka.SetRestrictions

/-!
# The start of a sandbox

A sandbox is created without libraries.  The restrictions that it is given are
in force when the base library is loaded, and from then on.
-/

namespace LuaSandbox
namespace Heka

open Foundation Lua
open Core

/-- A sandbox that has been created: the plugin would have no library in reach,
and the loader's tables are out of reach. -/
structure Created (env : ModuleEnv) (st : ModuleState) : Prop
    extends Unrestricted env st where
  tables_bare : forall u, ConfigTable env st u -> st.metatable u = none
  globals_config : ¬ ConfigTable env st env.globals
  globals_bare : st.metatable env.globals = none
  config_private : ¬ InReach env st (Value.table env.config)
  loaded_bare : st.metatable env.loaded = none
  loaded_lt : env.loaded < st.sb.fresh
  loaded_private : ¬ InReach env st (Value.table env.loaded)
  loaded_ne : env.loaded ≠ env.config
  loaded_values : forall name,
    (st.rawget env.loaded (Value.string name)).toboolean = false ->
      st.rawget env.loaded (Value.string name) = Value.nil
  unloaded : st.rawget env.loaded (Value.string []) = Value.nil
  unregistered : st.rawget env.loaded (Value.string (ascii "_G")) = Value.nil
  reach_lt : forall u, InReach env st (Value.table u) -> u < st.sb.fresh
  fresh_empty : forall u, st.sb.fresh <= u -> (st.tables u).entries = []
  no_library : forall f name lib key, InReach env st (Value.cfunction f) ->
    env.preloaded name = some lib -> (key, f) ∉ lib.functions

/-- What is in reach of a sandbox that was created, and tables that are made
for the restrictions. -/
def Started (env : ModuleEnv) (st : ModuleState) (limit : Nat) (v : Value) :
    Prop :=
  InReach env st v ∨
    exists u, v = Value.table u ∧ st.sb.fresh <= u ∧ u < limit

section

variable {env : ModuleEnv} {st : ModuleState}

theorem grouped_fresh (r : Nat) (g : String × List String)
    (st : ModuleState) : (grouped r g st).sb.fresh = st.sb.fresh + 1 := by
  unfold grouped
  rw [(pushed_frame _ _ _ _).2.2.1, assign_fresh]
  rfl

theorem groupedAll_frame (r : Nat) (groups : List (String × List String))
    (st : ModuleState) :
    (forall u, u ≠ r -> u < st.sb.fresh ∨
        (groupedAll r groups st).sb.fresh <= u ->
      (groupedAll r groups st).tables u = st.tables u) ∧
      (groupedAll r groups st).metatable = st.metatable ∧
      st.sb.fresh <= (groupedAll r groups st).sb.fresh := by
  induction groups generalizing st with
  | nil => exact ⟨fun _ _ _ => rfl, rfl, Nat.le_refl _⟩
  | cons g groups ih =>
      have hfresh := grouped_fresh r g st
      rcases ih (grouped r g st) with ⟨htables, hmeta, hle⟩
      rw [hfresh] at htables hle
      change (forall u, u ≠ r -> u < st.sb.fresh ∨
          (groupedAll r groups (grouped r g st)).sb.fresh <= u ->
        (groupedAll r groups (grouped r g st)).tables u = st.tables u) ∧
        (groupedAll r groups (grouped r g st)).metatable = st.metatable ∧
        st.sb.fresh <= (groupedAll r groups (grouped r g st)).sb.fresh
      refine ⟨?_, ?_, Nat.le_of_succ_le hle⟩
      · intro u hur hu
        rw [htables u hur (by omega)]
        unfold grouped
        rw [(pushed_frame _ _ _ _).1 u (by omega),
          assign_tables_of_ne _ _ _ _ hur, addTable_tables_of_ne (by omega)]
      · rw [hmeta]
        unfold grouped
        rw [(pushed_frame _ _ _ _).2.1, assign_metatable]
        rfl

/-!
## What the lists bring into reach
-/

theorem confined_pushed {S : Value -> Prop} {l : Nat} (j : Int)
    (entries : List String) (hnumber : forall d, S (Value.number d))
    (h : Confined env S nowhere st) :
    Confined env S nowhere (pushed l j entries st) := by
  induction entries generalizing j st with
  | nil => exact h
  | cons entry rest ih =>
      apply ih
      exact h.assign (Or.inl (h.harmless _ (isHarmless_string env _)))
        (fun _ => hnumber _)

theorem confined_groupedAll {S : Value -> Prop} {r low limit : Nat}
    (groups : List (String × List String))
    (hnumber : forall d, S (Value.number d))
    (htable : forall u, low <= u -> u < limit -> S (Value.table u))
    (hlow : low <= st.sb.fresh)
    (hlimit : (groupedAll r groups st).sb.fresh <= limit)
    (h : Confined env S nowhere st) :
    Confined env S nowhere (groupedAll r groups st) := by
  induction groups generalizing st with
  | nil => exact h
  | cons g groups ih =>
      have hfresh := grouped_fresh r g st
      have hle := (groupedAll_frame r groups (grouped r g st)).2.2
      change (groupedAll r groups (grouped r g st)).sb.fresh <= limit at hlimit
      rw [hfresh] at hle
      apply ih (by omega) hlimit
      apply confined_pushed _ _ hnumber
      exact h.addTable.assign
        (Or.inl (htable _ hlow (by omega)))
        (fun _ => h.harmless _ (isHarmless_string env _))

theorem modulesDisabled_frame (env : ModuleEnv) (st : ModuleState) :
    (forall u, u ≠ env.config -> u ≠ st.sb.fresh ->
      (modulesDisabled env st).tables u = st.tables u) ∧
      (modulesDisabled env st).metatable = st.metatable ∧
      (modulesDisabled env st).sb.fresh = st.sb.fresh + 1 := by
  unfold modulesDisabled
  refine ⟨?_, ?_, ?_⟩
  · intro u hconfig hu
    rw [assign_tables_of_ne _ _ _ _ hconfig, assign_tables_of_ne _ _ _ _ hu,
      assign_tables_of_ne _ _ _ _ hu, addTable_tables_of_ne hu]
  · rw [assign_metatable, assign_metatable, assign_metatable]
    rfl
  · rw [assign_fresh, assign_fresh, assign_fresh]
    rfl

theorem restrictedStart_frame (env : ModuleEnv) (type : PluginType)
    (st : ModuleState) :
    (forall u, u ≠ env.config ->
      u < st.sb.fresh ∨ (restrictedStart env type st).sb.fresh <= u ->
        (restrictedStart env type st).tables u = st.tables u) ∧
      (restrictedStart env type st).metatable = st.metatable ∧
      st.sb.fresh <= (restrictedStart env type st).sb.fresh := by
  rcases modulesDisabled_frame env st with ⟨htables, hmeta, hfresh⟩
  cases type with
  | input => exact ⟨fun _ _ _ => rfl, rfl, Nat.le_refl _⟩
  | analysis =>
      refine ⟨?_, hmeta, ?_⟩
      · intro u hconfig hu
        change u < _ ∨ (modulesDisabled env st).sb.fresh <= u at hu
        rw [hfresh] at hu
        exact htables u hconfig (by omega)
      · change st.sb.fresh <= (modulesDisabled env st).sb.fresh
        rw [hfresh]
        exact Nat.le_succ _
  | output => exact ⟨fun _ _ _ => rfl, rfl, Nat.le_refl _⟩

theorem restrictedState_frame (env : ModuleEnv) (type : PluginType)
    (st : ModuleState) :
    (forall u, u ≠ env.config ->
      u < st.sb.fresh ∨ (restrictedState env type st).sb.fresh <= u ->
        (restrictedState env type st).tables u = st.tables u) ∧
      (restrictedState env type st).metatable = st.metatable ∧
      (restrictedStart env type st).sb.fresh <
        (restrictedState env type st).sb.fresh := by
  rcases restrictedStart_frame env type st with ⟨htables, hmeta, hfresh⟩
  rcases groupedAll_frame (restrictedStart env type st).sb.fresh
    (removedEntries type) (restrictedStart env type st).addTable with
    ⟨htables', hmeta', hfresh'⟩
  have hfinal : (restrictedState env type st).sb.fresh =
      (groupedAll (restrictedStart env type st).sb.fresh
        (removedEntries type)
        (restrictedStart env type st).addTable).sb.fresh :=
    assign_fresh _ _ _ _
  change (restrictedStart env type st).sb.fresh + 1 <= _ at hfresh'
  refine ⟨?_, ?_, ?_⟩
  · intro u hconfig hu
    rw [hfinal] at hu
    unfold restrictedState
    rw [listsSet_tables_of_ne _ _ hconfig]
    have hne : u ≠ (restrictedStart env type st).sb.fresh := by omega
    have hout : u < (restrictedStart env type st).addTable.sb.fresh ∨
        (groupedAll (restrictedStart env type st).sb.fresh
          (removedEntries type)
          (restrictedStart env type st).addTable).sb.fresh <= u := by
      change u < (restrictedStart env type st).sb.fresh + 1 ∨ _
      omega
    rw [htables' u hne hout, addTable_tables_of_ne hne]
    exact htables u hconfig (by omega)
  · unfold restrictedState listsSet
    rw [assign_metatable, hmeta']
    exact hmeta
  · rw [hfinal]
    exact hfresh'

theorem confined_restrictedState (h : Created env st) (type : PluginType) :
    Confined env (Started env st (restrictedState env type st).sb.fresh)
      nowhere (restrictedState env type st) := by
  rcases restrictedStart_frame env type st with ⟨_, _, hfresh⟩
  have hlt := (restrictedState_frame env type st).2.2
  have hstart : Confined env
      (Started env st (restrictedState env type st).sb.fresh) nowhere st := by
    apply (inReach_confined env st).extend
    · exact fun v hv => Or.inl hv
    · rintro u (hreach | ⟨u', heq, hle, _⟩)
      · exact Or.inl hreach
      · cases heq
        exact Or.inr ⟨h.fresh_empty u hle, h.fresh_bare u hle⟩
  have htable : forall u, st.sb.fresh <= u ->
      u < (restrictedState env type st).sb.fresh ->
      Started env st (restrictedState env type st).sb.fresh
        (Value.table u) := fun u hle hu => Or.inr ⟨u, rfl, hle, hu⟩
  have hnumber : forall d,
      Started env st (restrictedState env type st).sb.fresh
        (Value.number d) := by
    intro d
    apply hstart.harmless
    exact ⟨fun _ => Value.noConfusion, fun _ _ _ _ h => Value.noConfusion h⟩
  have hboolean : forall b,
      Started env st (restrictedState env type st).sb.fresh
        (Value.boolean b) := by
    intro b
    apply hstart.harmless
    exact ⟨fun _ => Value.noConfusion, fun _ _ _ _ h => Value.noConfusion h⟩
  have hstring : forall s,
      Started env st (restrictedState env type st).sb.fresh
        (luaString s) := fun s => hstart.harmless _ (isHarmless_string env _)
  have hmodules : Confined env
      (Started env st (restrictedState env type st).sb.fresh) nowhere
      (restrictedStart env type st) := by
    cases type with
    | input => exact hstart
    | analysis =>
        change Confined env _ nowhere (modulesDisabled env st)
        unfold modulesDisabled
        exact ((hstart.addTable.assign (Or.inl (hboolean true))
          (fun _ => hstring _)).assign (Or.inl (hboolean true))
            (fun _ => hstring _)).assign
              (Or.inl (htable _ (Nat.le_refl _) (by omega)))
              (fun _ => hstring _)
    | output => exact hstart
  have hlimit : (groupedAll (restrictedStart env type st).sb.fresh
      (removedEntries type) (restrictedStart env type st).addTable).sb.fresh
        <= (restrictedState env type st).sb.fresh := by
    apply Nat.le_of_eq
    exact (assign_fresh _ _ _ _).symm
  have hlists := confined_groupedAll (removedEntries type) hnumber htable
    (Nat.le_succ_of_le hfresh) hlimit hmodules.addTable
  have hfinal : Confined env
      (Started env st (restrictedState env type st).sb.fresh) nowhere
      (listsSet env (removedEntries type) (restrictedStart env type st)) := by
    unfold listsSet
    exact hlists.assign (Or.inl (htable _ hfresh hlt)) (fun _ => hstring _)
  exact hfinal

/-- The tables of the new restrictions are new, or were restrictions before. -/
theorem configTable_restrictedState (h : Created env st) (type : PluginType)
    {u : Nat} (hu : ConfigTable env (restrictedState env type st) u) :
    u = env.config ∨ st.sb.fresh <= u ∨ ConfigTable env st u := by
  have hstart := restrictedStart_unrestricted h.toUnrestricted type
  rcases restrictedStart_frame env type st with ⟨_, _, hfresh⟩
  have hholds := groupedAll_holds (restrictedStart env type st).addTable
    (Nat.lt_succ_self _) (removedEntries type)
    (fun g hg => Int.le_of_lt (removedEntries_short type g hg))
    (removedEntries_nodup type)
  cases hu with
  | config => exact Or.inl rfl
  | disabled hd =>
      have hother : ¬ rawequal (luaString "remove_entries")
          (luaString "disable_modules") = true := by decide
      have hkey : forall s, IsTableKey (luaString s) :=
        fun s => isTableKey_string _
      unfold restrictedState listsSet at hd
      rw [assign_rawget _ _ _ (hkey _), if_neg hother] at hd
      unfold ModuleState.rawget at hd
      rw [hholds.frame _ (Nat.lt_succ_of_lt hstart.config_lt)
          (Nat.ne_of_lt hstart.config_lt),
        addTable_tables_of_ne (Nat.ne_of_lt hstart.config_lt)] at hd
      cases type with
      | input => exact Or.inr (Or.inr (ConfigTable.disabled hd))
      | analysis =>
          change (modulesDisabled env st).rawget env.config _ = _ at hd
          unfold modulesDisabled at hd
          rw [assign_rawget _ _ _ (hkey _), if_pos (hkey _).2] at hd
          cases hd
          exact Or.inr (Or.inl (Nat.le_refl _))
      | output => exact Or.inr (Or.inr (ConfigTable.disabled hd))
  | removed hr =>
      cases (listsSet_config env _ _).symm.trans hr
      exact Or.inr (Or.inl hfresh)
  | list hr hl =>
      rcases hasList_listsSet hstart hholds ⟨_, hr, hl⟩ with
        ⟨_, _, _, hlt, _⟩
      exact Or.inr (Or.inl (by omega))

/-- When the restrictions are set, the base library can be loaded. -/
theorem restrictedState_initial (h : Created env st) (type : PluginType)
    (n : Nat) : Initial env ((restrictedState env type st).setRoom n) := by
  have hconfined := (confined_restrictedState h type).setRoom n
  rcases restrictedState_frame env type st with ⟨htables, hmeta, hlt⟩
  have hle := (restrictedStart_frame env type st).2.2
  have hold := fun u hu => configTable_restrictedState h type (u := u) hu
  have hloaded : forall key,
      ((restrictedState env type st).setRoom n).rawget env.loaded key =
        st.rawget env.loaded key := by
    intro key
    change RawTable.rawget ((restrictedState env type st).tables _) _ = _
    rw [htables _ h.loaded_ne (Or.inl h.loaded_lt)]
    rfl
  have hglobals : env.globals < st.sb.fresh := h.reach_lt _ InReach.globals
  have hbare : forall u, ConfigTable env (restrictedState env type st) u ->
      (restrictedState env type st).metatable u = none := by
    intro u hu
    rw [hmeta]
    rcases hold u hu with rfl | hge | hconfig
    · exact h.config_bare
    · exact h.fresh_bare u hge
    · exact h.tables_bare u hconfig
  have hprivate : forall u, ¬ InReach env st (Value.table u) ->
      u < st.sb.fresh -> ¬ InReach env
        ((restrictedState env type st).setRoom n) (Value.table u) := by
    intro u hnot hu hreach
    rcases hconfined.of_inReach hreach with hin | ⟨u', heq, hge, _⟩
    · exact hnot hin
    · cases heq
      omega
  have hroom : forall u,
      ConfigTable env ((restrictedState env type st).setRoom n) u ->
        ConfigTable env (restrictedState env type st) u := by
    intro u hu
    cases hu with
    | config => exact ConfigTable.config
    | disabled hd => exact ConfigTable.disabled hd
    | removed hr => exact ConfigTable.removed hr
    | list hr hl => exact ConfigTable.list hr hl
  constructor
  · constructor
    · intro hu
      rcases hold _ (hroom _ hu) with heq | hge | hconfig
      · apply h.globals_config
        rw [heq]
        exact ConfigTable.config
      · omega
      · exact h.globals_config hconfig
    · exact fun u hu => hbare u (hroom u hu)
    · change env.config < (restrictedState env type st).sb.fresh
      have := h.config_lt
      omega
    · exact hprivate _ h.config_private h.config_lt
    · change (restrictedState env type st).metatable env.loaded = none
      rw [hmeta]
      exact h.loaded_bare
    · change env.loaded < (restrictedState env type st).sb.fresh
      have := h.loaded_lt
      omega
    · exact hprivate _ h.loaded_private h.loaded_lt
    · exact h.loaded_ne
    · intro name
      rw [hloaded]
      exact h.loaded_values name
    · intro u hu
      change u < (restrictedState env type st).sb.fresh
      rcases hconfined.of_inReach hu with hin | ⟨u', heq, _, hu'⟩
      · have := h.reach_lt u hin
        omega
      · cases heq
        exact hu'
    · intro u hu
      change (restrictedState env type st).sb.fresh <= u at hu
      change ((restrictedState env type st).tables u).entries = []
      have := h.config_lt
      rw [htables u (by omega) (Or.inr hu)]
      exact h.fresh_empty u (by omega)
    · intro u hu
      change (restrictedState env type st).sb.fresh <= u at hu
      change (restrictedState env type st).metatable u = none
      rw [hmeta]
      exact h.fresh_bare u (by omega)
    · intro name l hl
      have hholds := groupedAll_holds (restrictedStart env type st).addTable
        (Nat.lt_succ_self _) (removedEntries type)
        (fun g hg => Int.le_of_lt (removedEntries_short type g hg))
        (removedEntries_nodup type)
      have hl' : HasList env (restrictedState env type st) name l := hl
      rcases hasList_listsSet (restrictedStart_unrestricted h.toUnrestricted
        type) hholds hl' with ⟨g, hg, _, _, hat⟩
      have hlen' := removedEntries_short type g hg
      refine ⟨g.2.length, ?_, ?_⟩
      · change listAt (restrictedState env type st) l _ = Value.nil
        refine (hat _ hlen').trans ?_
        rw [List.getElem?_eq_none (Nat.le_refl _)]
        rfl
      · intro i hi
        change IsTableKey (listAt (restrictedState env type st) l i)
        have hvalue : listAt (restrictedState env type st) l i =
            luaString g.2[i] := by
          refine (hat i (by omega)).trans ?_
          rw [List.getElem?_eq_getElem hi]
          rfl
        rw [hvalue]
        exact isTableKey_string _
    · intro f hf hforbidden
      rcases hconfined.of_inReach hf with hin | ⟨u, heq, _⟩
      · rcases hforbidden.1 with ⟨name, lib, key, hlib, hmem⟩
        exact h.no_library f name lib key hin hlib hmem
      · cases heq
  · change (restrictedState env type st).metatable env.globals = none
    rw [hmeta]
    exact h.globals_bare
  · rw [hloaded]
    exact h.unloaded
  · rw [hloaded]
    exact h.unregistered

theorem setRoom_setRoom (st : ModuleState) (m n : Nat) :
    (st.setRoom m).setRoom n = st.setRoom n := rfl

/-- With enough memory the restrictions are set and the base library is
loaded. -/
theorem exists_start (h : Created env st) (type : PluginType) {base : Library}
    (hbase : env.preloaded [] = some base)
    (hregister : base.register = ascii "_G")
    (henabled : ¬ IsDisabled env (restrictedState env type st) []) :
    exists n st₁ v st₂,
      (setRestrictions env type).run (st.setRoom n) = (Except.ok (), st₁) ∧
        Requires env [] st₁ (Except.ok v) st₂ := by
  rcases spends_setRestrictions h.toUnrestricted type with ⟨c, hset⟩
  have hinitial := restrictedState_initial h type 0
  have hsame : SameRestrictions env (restrictedState env type st)
      ((restrictedState env type st).setRoom 0) := fun _ _ => rfl
  have henabled' : ¬ IsDisabled env
      ((restrictedState env type st).setRoom 0) [] :=
    fun hdisabled => henabled (hsame.symm.isDisabled hdisabled)
  rcases hinitial.removals [] with ⟨xs, hxs⟩
  rcases spends_requireBase hinitial hbase hregister henabled' hxs with
    ⟨d, k, hopen⟩
  have hrun := hset.done (c + d) (Nat.le_add_right c d)
  rw [Nat.add_sub_cancel_left] at hrun
  have hrequire : Requires env [] ((restrictedState env type st).setRoom d)
      (Except.ok (Value.table env.globals))
      ((stripped env.globals xs (baseFlagged env base.functions
        ((restrictedState env type st).setRoom 0))).setRoom (d - d)) := by
    refine ⟨k, ?_⟩
    intro fuel hfuel
    have hlast := (hopen fuel hfuel).done d (Nat.le_refl d)
    rw [setRoom_setRoom] at hlast
    exact hlast
  exact ⟨c + d, _, _, _, hrun, hrequire⟩

/-- A function of which every registration is listed is forbidden. -/
theorem forbidden_of_listed (h : Unrestricted env st) (type : PluginType)
    {f : Nat} (hlibrary : exists name lib key,
      env.preloaded name = some lib ∧ (key, f) ∈ lib.functions)
    (hlisted : forall name lib key, env.preloaded name = some lib ->
      (key, f) ∈ lib.functions -> Listed type name key) :
    Forbidden env (restrictedState env type st) f := by
  refine ⟨hlibrary, ?_⟩
  intro name lib key hlib hmem
  rcases hlisted name lib key hlib hmem with ⟨htype, hname⟩ | hgroup
  · subst htype
    exact Or.inl ((isDisabled_restrictedState h name).mpr hname)
  · exact Or.inr ((isRemoved_restrictedState h type name key).mpr hgroup)

end

/-!
An analysis plugin that was created without globals.
-/

def CreatedReach (v : Value) : Prop :=
  v = Value.table 0 ∨ IsHarmless sampleModuleEnv v

theorem emptyModules_confined (n : Nat) :
    Confined sampleModuleEnv CreatedReach nowhere (emptyModules.setRoom n) where
  globals := Or.inl rfl
  given := fun _ h => absurd h List.not_mem_nil
  harmless := fun _ h => Or.inr h
  config := fun _ => Or.inr (isHarmless_nil _)
  loaded := fun _ => Or.inr (isHarmless_nil _)
  entry := fun _ _ _ _ he => absurd he List.not_mem_nil
  metatable := by
    intro t m _ hm
    cases hm

theorem createdReach_table {u : Nat} (h : CreatedReach (Value.table u)) :
    u = 0 := by
  rcases h with h | h
  · exact Value.table.inj h
  · exact absurd rfl (h.1 u)

theorem emptyModules_configTable {n u : Nat}
    (hu : ConfigTable sampleModuleEnv (emptyModules.setRoom n) u) : u = 2 := by
  cases hu with
  | config => rfl
  | disabled hd => cases hd
  | removed hr => cases hr
  | list hr hl => cases hr

theorem emptyModules_created (n : Nat) :
    Created sampleModuleEnv (emptyModules.setRoom n) where
  config_lt := Nat.lt_succ_self 2
  config_bare := rfl
  fresh_bare := fun _ _ => rfl
  tables_bare := fun _ _ => rfl
  globals_config := by
    intro hu
    cases emptyModules_configTable hu
  globals_bare := rfl
  config_private := by
    intro hu
    cases createdReach_table ((emptyModules_confined n).of_inReach hu)
  loaded_bare := rfl
  loaded_lt := Nat.le_succ 2
  loaded_private := by
    intro hu
    cases createdReach_table ((emptyModules_confined n).of_inReach hu)
  loaded_ne := by decide
  loaded_values := fun _ _ => rfl
  unloaded := rfl
  unregistered := rfl
  reach_lt := by
    intro u hu
    rcases createdReach_table ((emptyModules_confined n).of_inReach hu) with
      rfl
    exact Nat.zero_lt_succ 2
  fresh_empty := fun _ _ => rfl
  no_library := by
    intro f name lib key hf hlib
    rcases (emptyModules_confined n).of_inReach hf with h | h
    · cases h
    · exact h.2 f name lib key rfl hlib

end Heka
end LuaSandbox
