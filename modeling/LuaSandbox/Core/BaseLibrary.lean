import LuaSandbox.Core.RestrictedRuns

/-!
# The base library

The initialization of a sandbox requires the base library, whose functions are
globals.  It leaves a secure state.
-/

namespace LuaSandbox
namespace Core

open Foundation Lua

/-- The state that the initialization finds. -/
structure Initial (env : ModuleEnv) (st : ModuleState) : Prop
    extends Guarded env st where
  globals_bare : st.metatable env.globals = none
  unloaded : st.rawget env.loaded (Value.string []) = Value.nil
  unregistered : st.rawget env.loaded (Value.string (ascii "_G")) = Value.nil

/-- The table of the globals is a global, and a module. -/
def baseIntroduced (env : ModuleEnv) (st : ModuleState) : ModuleState :=
  ((marked env [] st).assign env.globals (Value.string (ascii "_G"))
    (Value.table env.globals)).assign env.loaded (Value.string (ascii "_G"))
      (Value.table env.globals)

def baseFilled (env : ModuleEnv) (fs : List (List UInt8 × Nat))
    (st : ModuleState) : ModuleState :=
  (registered env.globals fs (baseIntroduced env st)).assign env.loaded
    (Value.string []) (Value.table env.globals)

def baseFlagged (env : ModuleEnv) (fs : List (List UInt8 × Nat))
    (st : ModuleState) : ModuleState :=
  (baseFilled env fs st).addTable.setMetatable env.globals
    (some st.sb.fresh)

section

variable {env : ModuleEnv} {st : ModuleState}

theorem baseIntroduced_frame (env : ModuleEnv) (st : ModuleState) :
    (forall u, u ≠ env.loaded -> u ≠ env.globals ->
      (baseIntroduced env st).tables u = st.tables u) ∧
      (baseIntroduced env st).metatable = st.metatable ∧
      (baseIntroduced env st).sb.fresh = st.sb.fresh := by
  unfold baseIntroduced marked
  refine ⟨?_, ?_, ?_⟩
  · intro u hloaded hglobals
    rw [assign_tables_of_ne _ _ _ _ hloaded,
      assign_tables_of_ne _ _ _ _ hglobals,
      assign_tables_of_ne _ _ _ _ hloaded]
  · rw [assign_metatable, assign_metatable, assign_metatable]
  · rw [assign_fresh, assign_fresh, assign_fresh]

theorem baseFilled_frame (env : ModuleEnv) (fs : List (List UInt8 × Nat))
    (st : ModuleState) :
    (forall u, u ≠ env.loaded -> u ≠ env.globals ->
      (baseFilled env fs st).tables u = st.tables u) ∧
      (baseFilled env fs st).metatable = st.metatable ∧
      (baseFilled env fs st).sb.fresh = st.sb.fresh := by
  rcases baseIntroduced_frame env st with ⟨htables, hmeta, hfresh⟩
  rcases registered_frame env.globals (baseIntroduced env st) fs with
    ⟨htables', hmeta', hfresh', _⟩
  unfold baseFilled
  refine ⟨?_, ?_, ?_⟩
  · intro u hloaded hglobals
    rw [assign_tables_of_ne _ _ _ _ hloaded, htables' u hglobals]
    exact htables u hloaded hglobals
  · rw [assign_metatable, hmeta', hmeta]
  · rw [assign_fresh, hfresh', hfresh]

theorem baseFlagged_tables (env : ModuleEnv) (st : ModuleState)
    (fs : List (List UInt8 × Nat)) {u : Nat} (hu : u ≠ st.sb.fresh)
    (hloaded : u ≠ env.loaded) (hglobals : u ≠ env.globals) :
    (baseFlagged env fs st).tables u = st.tables u := by
  rcases baseFilled_frame env fs st with ⟨htables, _, hfresh⟩
  change (baseFilled env fs st).addTable.tables u = _
  rw [addTable_tables, hfresh, if_neg hu]
  exact htables u hloaded hglobals

theorem baseFlagged_metatable (env : ModuleEnv)
    (fs : List (List UInt8 × Nat)) (st : ModuleState) (u : Nat) :
    (baseFlagged env fs st).metatable u =
      if u = env.globals then some st.sb.fresh else st.metatable u := by
  change (if u = env.globals then some st.sb.fresh
    else (baseFilled env fs st).metatable u) = _
  rw [(baseFilled_frame env fs st).2.1]

theorem Guarded.config_ne (h : Guarded env st) {u : Nat}
    (hu : ConfigTable env st u) :
    u ≠ env.loaded ∧ u ≠ env.globals ∧ u ≠ st.sb.fresh := by
  refine ⟨?_, ?_, Nat.ne_of_lt (h.configTable_lt hu)⟩
  · intro heq
    rw [heq] at hu
    exact h.loaded_config hu
  · intro heq
    rw [heq] at hu
    exact h.globals_config hu

theorem baseFlagged_same (h : Guarded env st)
    (fs : List (List UInt8 × Nat)) :
    SameRestrictions env st (baseFlagged env fs st) := by
  intro u hu
  rcases h.config_ne hu with ⟨hloaded, hglobals, hne⟩
  exact baseFlagged_tables env st fs hne hloaded hglobals

/-!
## The calls
-/

theorem spends_openBase {lib : Library} (h : Initial env st)
    (hregister : lib.register = ascii "_G") :
    exists c, Spends (openLibrary env lib) (marked env [] st) c env.globals
      (registered env.globals lib.functions (baseIntroduced env st)) := by
  have hmeta : (marked env [] st).metatable = st.metatable :=
    assign_metatable _ _ _ _
  have hglobals : (marked env [] st).metatable env.globals = none := by
    rw [hmeta]
    exact h.globals_bare
  rcases spends_setfield env (ascii "_G") (Value.table env.globals)
    (metamethod_of_bare hglobals "__newindex") with ⟨c, hset⟩
  have hloaded : ((marked env [] st).assign env.globals
      (Value.string (ascii "_G")) (Value.table env.globals)).metatable
        env.loaded = none := by
    rw [assign_metatable, hmeta]
    exact h.loaded_bare
  have hget : Spends (getfield env (Value.table env.loaded) (ascii "_G"))
      ((marked env [] st).assign env.globals (Value.string (ascii "_G"))
        (Value.table env.globals)) 0 _ _ :=
    spends_getfield (ascii "_G") (metamethod_of_bare hloaded _)
  have hnil : ((marked env [] st).assign env.globals
      (Value.string (ascii "_G")) (Value.table env.globals)).rawget env.loaded
        (Value.string (ascii "_G")) = Value.nil := by
    have hother : ¬ rawequal (Value.string [])
        (Value.string (ascii "_G")) = true := by decide
    rw [assign_rawget_of_ne _ _ _ _ h.globals_ne.symm]
    unfold marked
    rw [assign_rawget _ _ _ (isTableKey_string []), if_neg hother]
    exact h.unregistered
  rw [hnil] at hget
  have hlook : Spends (look (fun s => s.rawget env.globals
      (Value.string (ascii "_G")))) ((marked env [] st).assign env.globals
        (Value.string (ascii "_G")) (Value.table env.globals)) 0
      (((marked env [] st).assign env.globals (Value.string (ascii "_G"))
        (Value.table env.globals)).rawget env.globals
          (Value.string (ascii "_G"))) _ := Spends.look (fun _ => rfl)
  have hfound : ((marked env [] st).assign env.globals
      (Value.string (ascii "_G")) (Value.table env.globals)).rawget
        env.globals (Value.string (ascii "_G")) =
          Value.table env.globals := by
    rw [assign_rawget _ _ _ (isTableKey_string _)]
    exact if_pos (isTableKey_string _).2
  rw [hfound] at hlook
  rcases spends_setfield env (ascii "_G") (Value.table env.globals)
    (metamethod_of_bare hloaded "__newindex") with ⟨d, hmodule⟩
  have hbare : (baseIntroduced env st).metatable env.globals = none := by
    rw [(baseIntroduced_frame env st).2.1]
    exact h.globals_bare
  rcases spends_registerFunctions env hbare lib.functions with
    ⟨k, hfunctions⟩
  have htable : Spends (findtable env (ascii "_G") [ascii "_G"] env.globals)
      ((marked env [] st).assign env.globals (Value.string (ascii "_G"))
        (Value.table env.globals)) (0 + 0) env.globals
      ((marked env [] st).assign env.globals (Value.string (ascii "_G"))
        (Value.table env.globals)) := by
    unfold findtable
    apply Spends.bind hlook
    exact Spends.pure _
  have hsplit : (ascii "_G").splitOn 46 = [ascii "_G"] :=
    splitOn_of_not_mem (by decide)
  refine ⟨c + (0 + ((0 + 0) + (d + (0 + (k + 0))))), ?_⟩
  unfold openLibrary
  rw [hregister, hsplit, if_pos rfl]
  apply Spends.bind hset
  apply Spends.bind hget
  apply Spends.bind htable
  apply Spends.bind hmodule
  apply Spends.bind (Spends.pure _)
  exact Spends.bind hfunctions (Spends.pure _)

theorem spends_requireBase {lib : Library} (h : Initial env st)
    (hlib : env.preloaded [] = some lib)
    (hregister : lib.register = ascii "_G")
    (henabled : ¬ IsDisabled env st []) {xs : List Value}
    (hxs : Removals env st [] xs) :
    exists c n, forall fuel, n < fuel ->
      Spends (require env fuel []) st c (Value.table env.globals)
        (stripped env.globals xs (baseFlagged env lib.functions st)) := by
  rcases spends_isDisabled h.config_bare [] with ⟨b, hdisabled, hb⟩
  have hfalse : b = false := by
    cases b with
    | false => rfl
    | true => exact absurd (hb.mp rfl) henabled
  rw [hfalse] at hdisabled
  have hget : Spends (getfield env (Value.table env.loaded) []) st 0 _ st :=
    spends_getfield [] (metamethod_of_bare h.loaded_bare _)
  rw [h.unloaded] at hget
  rcases spends_setfield env [] (Value.lightuserdata env.sentinel)
    (metamethod_of_bare h.loaded_bare "__newindex") with ⟨c, hmark⟩
  rcases spends_openBase h hregister with ⟨d, hopen⟩
  have hbare : (registered env.globals lib.functions
      (baseIntroduced env st)).metatable env.loaded = none := by
    rw [(registered_frame _ _ _).2.1, (baseIntroduced_frame env st).2.1]
    exact h.loaded_bare
  rcases spends_setfield env [] (Value.table env.globals)
    (metamethod_of_bare hbare "__newindex") with ⟨k, hmodule⟩
  rcases baseFilled_frame env lib.functions st with ⟨_, hmeta, hfresh⟩
  have hlook : Spends (look (fun s => s.metatable env.globals))
      (baseFilled env lib.functions st) 0
      ((baseFilled env lib.functions st).metatable env.globals)
      (baseFilled env lib.functions st) := Spends.look (fun _ => rfl)
  rw [hmeta, h.globals_bare] at hlook
  have hnew : Spends luaNewtable (baseFilled env lib.functions st) 1
      (baseFilled env lib.functions st).sb.fresh
      (baseFilled env lib.functions st).addTable := Spends.newtable
  rw [hfresh] at hnew
  have hset : Spends (change (fun s => s.setMetatable env.globals
      (some st.sb.fresh))) (baseFilled env lib.functions st).addTable 0 ()
      (baseFlagged env lib.functions st) := Spends.change (fun _ => rfl)
  have hsame := baseFlagged_same h.toGuarded lib.functions
  have hconfig : forall u,
      ConfigTable env (baseFlagged env lib.functions st) u ->
      (baseFlagged env lib.functions st).metatable u = none := by
    intro u hu
    have hu' := hsame.configTable.mp hu
    rw [baseFlagged_metatable, if_neg (h.config_ne hu').2.1]
    exact h.config_bare u hu'
  have ht : ¬ ConfigTable env (baseFlagged env lib.functions st)
      env.globals := fun ht => h.globals_config (hsame.configTable.mp ht)
  have hsome : (baseFlagged env lib.functions st).metatable env.globals =
      some st.sb.fresh := by
    rw [baseFlagged_metatable, if_pos rfl]
  have hne : forall m, (baseFlagged env lib.functions st).metatable
      env.globals = some m -> m ≠ env.globals := by
    intro m hm
    cases hsome.symm.trans hm
    exact Nat.ne_of_gt (h.reach_lt _ InReach.globals)
  have hindex : (baseFlagged env lib.functions st).metamethod
      (Value.table env.globals) "__newindex" = Value.nil := by
    rw [metamethod_of_some hsome]
    change RawTable.rawget ((baseFilled env lib.functions
      st).addTable.tables _) _ = _
    rw [addTable_tables, hfresh, if_pos rfl]
    rfl
  rcases spends_removeEntries hconfig ht hne hindex (hxs.of_same hsame) with
    ⟨r, n, hremove⟩
  have hempty : Spends (addEmptyMetatable env.globals)
      (baseFilled env lib.functions st) (0 + (1 + 0)) ()
      (baseFlagged env lib.functions st) := by
    unfold addEmptyMetatable
    apply Spends.bind hlook
    exact Spends.bind hnew hset
  refine ⟨0 + (0 + (c + (d + (k + ((0 + (1 + 0)) + (r + 0)))))), n, ?_⟩
  intro fuel hfuel
  unfold require
  apply Spends.bind hdisabled
  apply Spends.bind hget
  rw [hlib]
  apply Spends.bind hmark
  apply Spends.bind hopen
  apply Spends.bind hmodule
  apply Spends.bind hempty
  exact Spends.bind (hremove fuel hfuel) (Spends.pure _)

/-!
## What comes into reach
-/

theorem confined_baseFlagged (h : Guarded env st)
    (fs : List (List UInt8 × Nat)) :
    Confined env (Allowed env st 1) (fun u => u = env.globals)
      (baseFlagged env fs st) := by
  have hallowed := (h.allowed_confined 1).weaken (fun u => u = env.globals)
  have hstring : forall s, Allowed env st 1 (Value.string s) :=
    fun s => hallowed.harmless _ (isHarmless_string env s)
  have hconfig : env.globals ≠ env.config := by
    intro heq
    apply h.globals_config
    rw [heq]
    exact ConfigTable.config
  have hmarked : Confined env (Allowed env st 1) (fun u => u = env.globals)
      (marked env [] st) :=
    hallowed.assign (Or.inl (hallowed.harmless _
      (isHarmless_lightuserdata env env.sentinel))) (fun _ => hstring [])
  have hintroduced : Confined env (Allowed env st 1)
      (fun u => u = env.globals) (baseIntroduced env st) :=
    (hmarked.assign (Or.inl hallowed.globals)
      (fun _ => hstring _)).assign (Or.inl hallowed.globals)
        (fun _ => hstring _)
  have hfilled : Confined env (Allowed env st 1) (fun u => u = env.globals)
      (baseFilled env fs st) :=
    (confined_registered hconfig h.globals_ne fs hintroduced).assign
      (Or.inl hallowed.globals) (fun _ => hstring [])
  apply hfilled.addTable.setMetatable
  intro u hu
  cases hu
  exact allowed_library env st Nat.zero_lt_one

/-- An entry of the globals is an old one, their own name or a function. -/
theorem mem_baseFlagged (h : Guarded env st) {fs : List (List UInt8 × Nat)}
    {e : Value × Value}
    (he : e ∈ ((baseFlagged env fs st).tables env.globals).entries) :
    (Allowed env st 1 e.1 ∧ Allowed env st 1 e.2) ∨
      exists f, (f ∈ fs ∧ e.2 = Value.cfunction f.2) ∧
        e.1 = Value.string f.1 := by
  have hallowed := h.allowed_confined 1
  have hlt := h.reach_lt _ InReach.globals
  change e ∈ ((baseFilled env fs st).addTable.tables _).entries at he
  rw [addTable_tables, (baseFilled_frame env fs st).2.2,
    if_neg (Nat.ne_of_lt hlt)] at he
  unfold baseFilled at he
  rw [assign_tables_of_ne _ _ _ _ h.globals_ne] at he
  rcases mem_registered _ _ he with hold | hnew
  · left
    unfold baseIntroduced at hold
    rw [assign_tables_of_ne _ _ _ _ h.globals_ne] at hold
    have hentries : forall e', e' ∈ ((marked env [] st).tables
        env.globals).entries ->
          Allowed env st 1 e'.1 ∧ Allowed env st 1 e'.2 := by
      intro e' he'
      unfold marked at he'
      rw [assign_tables_of_ne _ _ _ _ h.globals_ne] at he'
      exact hallowed.entry _ e' not_false hallowed.globals he'
    rcases mem_assign (isTableKey_string _) hold with
      ⟨⟨hv, _⟩, hk | ⟨e', he', hk⟩⟩ | ⟨hmem, _⟩
    · rw [hv, hk]
      exact ⟨hallowed.harmless _ (isHarmless_string env _),
        hallowed.globals⟩
    · rw [hv, ← hk]
      exact ⟨(hentries e' he').1, hallowed.globals⟩
    · exact hentries e hmem
  · exact Or.inr hnew

theorem confined_base (h : Guarded env st) {lib : Library}
    (hlib : env.preloaded [] = some lib) (henabled : ¬ IsDisabled env st [])
    {xs : List Value} (hxs : Removals env st [] xs) :
    Confined env (Allowed env st 1) nowhere
      (stripped env.globals xs (baseFlagged env lib.functions st)) := by
  have hflagged := confined_baseFlagged h lib.functions
  apply (confined_stripped xs hflagged).close
  intro e he
  have hstring : forall s, Allowed env st 1 (Value.string s) :=
    fun s => hflagged.harmless _ (isHarmless_string env s)
  have hkey : forall e', e' ∈ ((baseFlagged env lib.functions st).tables
      env.globals).entries -> Allowed env st 1 e'.1 := by
    intro e' he'
    rcases mem_baseFlagged h he' with ⟨hk, _⟩ | ⟨f, _, hname⟩
    · exact hk
    · rw [hname]
      exact hstring f.1
  rcases mem_stripped _ _ (fun x hx => (hxs.inReach hx).2) he with
    ⟨hnil, hx | ⟨e', he', hsame⟩⟩ | ⟨hmem, hnot⟩
  · rw [hnil]
    exact ⟨Allowed.held (hxs.inReach hx).1,
      hflagged.harmless _ (isHarmless_nil env)⟩
  · rw [hnil, ← hsame]
    exact ⟨hkey e' he', hflagged.harmless _ (isHarmless_nil env)⟩
  · rcases mem_baseFlagged h hmem with hold | ⟨f, ⟨hf, hvalue⟩, hname⟩
    · exact hold
    · rw [hvalue, hname]
      refine ⟨hstring f.1, Allowed.function ?_⟩
      intro hforbidden
      rcases hforbidden.2 [] lib f.1 hlib hf with hdisabled | hremoved
      · exact henabled hdisabled
      · have hfalse := hnot _ (hxs.of_isRemoved hremoved)
        rw [hname, (isTableKey_string f.1).2] at hfalse
        cases hfalse

theorem baseFilled_loaded (h : Guarded env st)
    (fs : List (List UInt8 × Nat)) (key : List UInt8) :
    (baseFilled env fs st).rawget env.loaded (Value.string key) =
        Value.table env.globals ∨
      key ≠ [] ∧ (baseFilled env fs st).rawget env.loaded
        (Value.string key) = st.rawget env.loaded (Value.string key) := by
  have hglobals := h.globals_ne.symm
  have hequal : forall s, rawequal (Value.string s) (Value.string key) = true
      <-> s = key := by
    intro s
    have hstring : (Value.string s).type ≠ LuaType.number :=
      LuaType.noConfusion
    rw [rawequal_of_ne_number hstring, Value.string.injEq]
  unfold baseFilled
  rw [assign_rawget _ _ _ (isTableKey_string [])]
  by_cases hempty : [] = key
  · exact Or.inl (if_pos ((hequal []).mpr hempty))
  · rw [if_neg (fun heq => hempty ((hequal []).mp heq))]
    unfold ModuleState.rawget
    rw [(registered_frame _ _ _).1 _ hglobals]
    change (baseIntroduced env st).rawget _ _ = _ ∨
      _ ∧ (baseIntroduced env st).rawget _ _ = _
    unfold baseIntroduced
    rw [assign_rawget _ _ _ (isTableKey_string _)]
    by_cases hname : ascii "_G" = key
    · exact Or.inl (if_pos ((hequal _).mpr hname))
    · right
      refine ⟨Ne.symm hempty, ?_⟩
      rw [if_neg (fun heq => hname ((hequal _).mp heq)),
        assign_rawget_of_ne _ _ _ _ hglobals]
      unfold marked
      rw [assign_rawget _ _ _ (isTableKey_string []),
        if_neg (fun heq => hempty ((hequal []).mp heq))]
      rfl

/-- What a call returns is enabled. -/
theorem Requires.enabled (h : Guarded env st) {name : List UInt8}
    {v : Value} {st' : ModuleState}
    (hrun : Requires env name st (Except.ok v) st') :
    ¬ IsDisabled env st name := by
  intro hdisabled
  rcases hrun with ⟨n, hrun⟩
  have hlast := hrun (n + 1) (Nat.lt_succ_self n)
  rcases spends_isDisabled h.config_bare name with ⟨b, hspends, hb⟩
  rw [hb.mpr hdisabled] at hspends
  have hcall : (isDisabled env name).run st = (Except.ok true, st) :=
    hspends.run_eq
  unfold require at hlast
  rw [Computation.run_bind_ok hcall] at hlast
  cases hlast

/-- The initialization with the base library leaves a secure state. -/
theorem requireBase_secure {st' : ModuleState} {lib : Library}
    (h : Initial env st) (hlib : env.preloaded [] = some lib)
    (hregister : lib.register = ascii "_G") {v : Value}
    (hrun : Requires env [] st (Except.ok v) st') :
    Secure env st' ∧ SameRestrictions env st st' := by
  have henabled := hrun.enabled h.toGuarded
  rcases h.removals [] with ⟨xs, hxs⟩
  rcases spends_requireBase h hlib hregister henabled hxs with ⟨c, k, hopen⟩
  rcases hrun with ⟨n, hrun⟩
  rcases (hopen (max n k + 1) (by omega)).of_ok
    (hrun (max n k + 1) (by omega)) with ⟨_, m, rfl⟩
  rcases stripped_frame env.globals (baseFlagged env lib.functions st) xs with
    ⟨htables, hmeta, hfresh, _⟩
  have hglobals := h.reach_lt _ InReach.globals
  have hfresh' : (stripped env.globals xs
      (baseFlagged env lib.functions st)).sb.fresh = st.sb.fresh + 1 := by
    rw [hfresh]
    exact congrArg (fun i => i + 1)
      (baseFilled_frame env lib.functions st).2.2
  have hother : forall u, u ≠ st.sb.fresh -> u ≠ env.loaded ->
      u ≠ env.globals -> (stripped env.globals xs
        (baseFlagged env lib.functions st)).tables u = st.tables u := by
    intro u hu hloaded hne
    rw [htables u hne]
    exact baseFlagged_tables env st lib.functions hu hloaded hne
  have hsame : SameRestrictions env st ((stripped env.globals xs
      (baseFlagged env lib.functions st)).setRoom m) := by
    intro u hu
    rcases h.config_ne hu with ⟨hloaded, hne, hlt⟩
    exact hother u hlt hloaded hne
  have hloaded : forall key, ((stripped env.globals xs
      (baseFlagged env lib.functions st)).setRoom m).rawget env.loaded
        (Value.string key) = Value.table env.globals ∨
      key ≠ [] ∧ ((stripped env.globals xs
        (baseFlagged env lib.functions st)).setRoom m).rawget env.loaded
          (Value.string key) = st.rawget env.loaded (Value.string key) := by
    intro key
    have htable : (stripped env.globals xs
        (baseFlagged env lib.functions st)).tables env.loaded =
          (baseFilled env lib.functions st).tables env.loaded := by
      rw [htables _ h.globals_ne.symm]
      change (baseFilled env lib.functions st).addTable.tables _ = _
      rw [addTable_tables, (baseFilled_frame env lib.functions st).2.2,
        if_neg (Nat.ne_of_lt h.loaded_lt)]
    have hrow := baseFilled_loaded h.toGuarded lib.functions key
    unfold ModuleState.rawget at hrow ⊢
    change RawTable.rawget ((stripped _ _ _).tables _) _ = _ ∨
      _ ∧ RawTable.rawget ((stripped _ _ _).tables _) _ = _
    rw [htable]
    exact hrow
  have hbase : (((stripped env.globals xs
      (baseFlagged env lib.functions st)).setRoom m).rawget env.loaded
        (Value.string [])).toboolean = true := by
    rcases hloaded [] with htable | ⟨hne, _⟩
    · rw [htable]
      rfl
    · exact absurd rfl hne
  refine ⟨⟨h.of_confined hsame
    ((confined_base h.toGuarded hlib henabled hxs).setRoom m) ?_ ?_ ?_ ?_ ?_
    ?_ ?_ ?_ ?_, hbase⟩, hsame⟩
  · change st.sb.fresh <= (stripped _ _ _).sb.fresh
    rw [hfresh']
    exact Nat.le_succ _
  · intro u hu
    change u < (stripped _ _ _).sb.fresh
    rw [hfresh']
    rcases allowed_table hu with hreach | ⟨_, hlt⟩
    · exact Nat.lt_succ_of_lt (h.reach_lt u hreach)
    · exact hlt
  · intro hu
    rcases allowed_table hu with hreach | ⟨hge, _⟩
    · exact h.config_private hreach
    · exact absurd h.config_lt (Nat.not_lt_of_ge hge)
  · intro hu
    rcases allowed_table hu with hreach | ⟨hge, _⟩
    · exact h.loaded_private hreach
    · exact absurd h.loaded_lt (Nat.not_lt_of_ge hge)
  · intro f hf
    cases hf with
    | held hreach => exact h.lawful f hreach
    | function hallowed => exact hallowed
  · intro u hu
    change (stripped _ _ _).metatable u = none
    rw [hmeta, baseFlagged_metatable]
    rcases hu with hu | rfl
    · rw [if_neg (h.config_ne hu).2.1]
      exact h.config_bare u hu
    · rw [if_neg h.globals_ne.symm]
      exact h.loaded_bare
  · intro key hkey
    rcases hloaded key with htable | ⟨_, hold⟩
    · rw [htable] at hkey
      cases hkey
    · rw [hold] at hkey ⊢
      exact h.loaded_values key hkey
  · intro u hu
    change (stripped _ _ _).sb.fresh <= u at hu
    rw [hfresh'] at hu
    change ((stripped _ _ _).tables u).entries = []
    have hlt := h.loaded_lt
    rw [hother u (by omega) (by omega) (by omega)]
    exact h.fresh_empty u (by omega)
  · intro u hu
    change (stripped _ _ _).sb.fresh <= u at hu
    rw [hfresh'] at hu
    change (stripped _ _ _).metatable u = none
    rw [hmeta, baseFlagged_metatable, if_neg (by omega)]
    exact h.fresh_bare u (by omega)

end

end Core
end LuaSandbox
