import LuaSandbox.Core.Restrictions

/-!
# A library that is opened

What `require` does to the state when it opens a library: its table, the
functions that are left in it, and the allocations on the way.
-/

namespace LuaSandbox
namespace Core

open Foundation Lua

/-!
## The states on the way
-/

def registered (t : Nat) (fs : List (List UInt8 × Nat)) (st : ModuleState) :
    ModuleState :=
  fs.foldl (fun s e =>
    s.assign t (Value.string e.1) (Value.cfunction e.2)) st

def stripped (t : Nat) (xs : List Value) (st : ModuleState) : ModuleState :=
  xs.foldl (fun s x => s.assign t x Value.nil) st

/-- The new table of the library is a global and the module. -/
def introduced (env : ModuleEnv) (name : List UInt8) (st : ModuleState) :
    ModuleState :=
  let t := st.sb.fresh
  (((st.assign env.loaded (Value.string name)
    (Value.lightuserdata env.sentinel)).addTable.assign env.globals
      (Value.string name) (Value.table t)).assign env.loaded
        (Value.string name) (Value.table t))

/-- The library with all its functions. -/
def filled (env : ModuleEnv) (name : List UInt8)
    (fs : List (List UInt8 × Nat)) (st : ModuleState) : ModuleState :=
  (registered st.sb.fresh fs (introduced env name st)).assign env.loaded
    (Value.string name) (Value.table st.sb.fresh)

/-- The values of a list from a place on. -/
def listed (st : ModuleState) (l i n : Nat) : List Value :=
  (List.range' i n).map (listAt st l)

/-- The list has its first nil at the place `n`, and keys in front of it. -/
def ListEnds (st : ModuleState) (l n : Nat) : Prop :=
  listAt st l n = Value.nil ∧ forall i, i < n -> IsTableKey (listAt st l i)

/-- What is removed from a library. -/
def Removals (env : ModuleEnv) (st : ModuleState) (name : List UInt8)
    (xs : List Value) : Prop :=
  (exists l n, HasList env st name l ∧ ListEnds st l n ∧
    xs = listed st l 0 n) ∨
  (forall l, ¬ HasList env st name l) ∧ xs = []

/-!
## Assignments to one table
-/

section

variable (t : Nat) (st : ModuleState)

theorem registered_frame (fs : List (List UInt8 × Nat)) :
    (forall u, u ≠ t -> (registered t fs st).tables u = st.tables u) ∧
      (registered t fs st).metatable = st.metatable ∧
      (registered t fs st).sb.fresh = st.sb.fresh ∧
      (registered t fs st).given = st.given := by
  induction fs generalizing st with
  | nil => exact ⟨fun _ _ => rfl, rfl, rfl, rfl⟩
  | cons e rest ih =>
      rcases ih (st.assign t (Value.string e.1) (Value.cfunction e.2)) with
        ⟨htables, hmeta, hfresh, hgiven⟩
      rw [assign_metatable] at hmeta
      rw [assign_fresh] at hfresh
      rw [assign_given] at hgiven
      refine ⟨?_, hmeta, hfresh, hgiven⟩
      intro u hu
      rw [← assign_tables_of_ne st t (Value.string e.1)
        (Value.cfunction e.2) hu]
      exact htables u hu

theorem stripped_frame (xs : List Value) :
    (forall u, u ≠ t -> (stripped t xs st).tables u = st.tables u) ∧
      (stripped t xs st).metatable = st.metatable ∧
      (stripped t xs st).sb.fresh = st.sb.fresh ∧
      (stripped t xs st).given = st.given := by
  induction xs generalizing st with
  | nil => exact ⟨fun _ _ => rfl, rfl, rfl, rfl⟩
  | cons x rest ih =>
      rcases ih (st.assign t x Value.nil) with
        ⟨htables, hmeta, hfresh, hgiven⟩
      rw [assign_metatable] at hmeta
      rw [assign_fresh] at hfresh
      rw [assign_given] at hgiven
      refine ⟨?_, hmeta, hfresh, hgiven⟩
      intro u hu
      rw [← assign_tables_of_ne st t x Value.nil hu]
      exact htables u hu

/-- An entry behind the registration is an old one or a function. -/
theorem mem_registered {fs : List (List UInt8 × Nat)} {e : Value × Value}
    (h : e ∈ ((registered t fs st).tables t).entries) :
    e ∈ (st.tables t).entries ∨
      exists f, (f ∈ fs ∧ e.2 = Value.cfunction f.2) ∧
        e.1 = Value.string f.1 := by
  induction fs generalizing st with
  | nil => exact Or.inl h
  | cons f rest ih =>
      rcases ih _ h with hold | ⟨g, ⟨hg, hv⟩, hk⟩
      · rcases mem_assign (isTableKey_string f.1) hold with
          ⟨⟨hv, hsame⟩, _⟩ | ⟨hold', _⟩
        · have hstring : (Value.string f.1).type ≠ LuaType.number :=
            LuaType.noConfusion
          rw [rawequal_comm] at hsame
          have hkey := (rawequal_of_ne_number hstring).mp hsame
          exact Or.inr ⟨f, ⟨List.mem_cons_self, hv⟩, hkey.symm⟩
        · exact Or.inl hold'
      · exact Or.inr ⟨g, ⟨List.mem_cons_of_mem _ hg, hv⟩, hk⟩

/-- An entry behind the removal is nil or none of those that are removed. -/
theorem mem_stripped {xs : List Value} {e : Value × Value}
    (hkeys : forall x, x ∈ xs -> IsTableKey x)
    (h : e ∈ ((stripped t xs st).tables t).entries) :
    (e.2 = Value.nil ∧ (e.1 ∈ xs ∨
        exists e', e' ∈ (st.tables t).entries ∧ e'.1 = e.1)) ∨
      e ∈ (st.tables t).entries ∧
        forall x, x ∈ xs -> rawequal e.1 x = false := by
  induction xs generalizing st with
  | nil => exact Or.inr ⟨h, fun _ hx => absurd hx List.not_mem_nil⟩
  | cons x rest ih =>
      have hx := hkeys x List.mem_cons_self
      have hrest : forall y, y ∈ rest -> IsTableKey y :=
        fun y hy => hkeys y (List.mem_cons_of_mem _ hy)
      have hkey : forall e' : Value × Value,
          e' ∈ ((st.assign t x Value.nil).tables t).entries -> e'.1 = e.1 ->
          e.1 ∈ x :: rest ∨
            exists e'', e'' ∈ (st.tables t).entries ∧ e''.1 = e.1 := by
        intro e' he' hsame
        rcases mem_assign hx he' with ⟨_, hk | ⟨e'', he'', hk⟩⟩ | ⟨hold, _⟩
        · rw [← hsame, hk]
          exact Or.inl List.mem_cons_self
        · exact Or.inr ⟨e'', he'', hk.trans hsame⟩
        · exact Or.inr ⟨e', hold, hsame⟩
      rcases ih (st.assign t x Value.nil) hrest h with
        ⟨hnil, hmem | ⟨e', he', hsame⟩⟩ | ⟨hmem, hne⟩
      · exact Or.inl ⟨hnil, Or.inl (List.mem_cons_of_mem _ hmem)⟩
      · exact Or.inl ⟨hnil, hkey e' he' hsame⟩
      · rcases mem_assign hx hmem with ⟨⟨hnil, _⟩, _⟩ | ⟨hold, hnot⟩
        · exact Or.inl ⟨hnil, hkey e hmem rfl⟩
        · refine Or.inr ⟨hold, ?_⟩
          intro y hy
          rcases List.mem_cons.mp hy with rfl | hy'
          · exact hnot
          · exact hne y hy'

end

/-!
## The calls on the way
-/

section

variable {env : ModuleEnv} {st : ModuleState} {t : Nat}

theorem spends_registerFunctions (env : ModuleEnv)
    (hbare : st.metatable t = none) (fs : List (List UInt8 × Nat)) :
    exists c, Spends (registerFunctions env t fs) st c ()
      (registered t fs st) := by
  induction fs generalizing st with
  | nil => exact ⟨0, Spends.pure ()⟩
  | cons f rest ih =>
      rcases f with ⟨name, f⟩
      rcases spends_setfield env name (Value.cfunction f)
        (metamethod_of_bare hbare "__newindex") with ⟨c, hset⟩
      have hbare' : (st.assign t (Value.string name)
          (Value.cfunction f)).metatable t = none := by
        rw [assign_metatable]
        exact hbare
      rcases ih hbare' with ⟨d, hrest⟩
      exact ⟨_, Spends.bind Spends.allocate (Spends.bind hset hrest)⟩

theorem listAt_assign_of_ne {l : Nat} (h : l ≠ t) (key value : Value)
    (i : Nat) : listAt (st.assign t key value) l i = listAt st l i :=
  assign_rawget_of_ne st t key value h _

theorem listed_assign_of_ne {l : Nat} (h : l ≠ t) (key value : Value)
    (i n : Nat) : listed (st.assign t key value) l i n = listed st l i n := by
  unfold listed
  exact List.map_congr_left (fun j _ => listAt_assign_of_ne h key value j)

theorem spends_removeLoop (env : ModuleEnv) {l : Nat} (hl : l ≠ t) {k : Nat}
    (hends : ListEnds st l k)
    (hmeta : forall m, st.metatable t = some m -> m ≠ t)
    (hnew : st.metamethod (Value.table t) "__newindex" = Value.nil)
    {i n : Nat} (hn : i + n = k) :
    exists c, forall fuel, n < fuel ->
      Spends (removeLoop env l (Value.table t) fuel ((i : Int) + 1)) st c ()
        (stripped t (listed st l i n) st) := by
  have hlook : forall (s : ModuleState) (j : Nat),
      Spends (look (fun s' => s'.rawget l (integer (toInt ((j : Int) + 1)))))
        s 0 (listAt s l j) s := fun _ _ => Spends.look (fun _ => rfl)
  induction n generalizing st i with
  | zero =>
      refine ⟨0 + 0, ?_⟩
      intro fuel hfuel
      cases fuel with
      | zero => exact absurd hfuel (Nat.lt_irrefl 0)
      | succ fuel =>
          have hik : i = k := hn
          have hfirst := hlook st i
          rw [hik, hends.1] at hfirst
          unfold removeLoop
          rw [hik]
          apply Spends.bind hfirst
          rw [if_pos rfl]
          exact Spends.pure ()
  | succ n ih =>
      have hkey := hends.2 i (by omega)
      have hset := spends_setEntry env Value.nil hkey hnew
      have hends' : ListEnds (st.assign t (listAt st l i) Value.nil) l k := by
        constructor
        · rw [listAt_assign_of_ne hl]
          exact hends.1
        · intro j hj
          rw [listAt_assign_of_ne hl]
          exact hends.2 j hj
      have hmeta' : forall m,
          (st.assign t (listAt st l i) Value.nil).metatable t = some m ->
            m ≠ t := by
        rw [assign_metatable]
        exact hmeta
      have hnew' : (st.assign t (listAt st l i) Value.nil).metamethod
          (Value.table t) "__newindex" = Value.nil := by
        rw [assign_metamethod_of_ne _ _ _ hmeta]
        exact hnew
      have hi : i + 1 + n = k := by omega
      rcases ih hends' hmeta' hnew' hi with ⟨c, hrest⟩
      rw [listed_assign_of_ne hl] at hrest
      refine ⟨0 + ((if st.rawget t (listAt st l i) = Value.nil then 1
        else 0) + c), ?_⟩
      intro fuel hfuel
      cases fuel with
      | zero => exact absurd hfuel (Nat.not_lt_zero _)
      | succ fuel =>
          unfold removeLoop
          apply Spends.bind (hlook st i)
          rw [if_neg hkey.1]
          exact Spends.bind hset (hrest fuel (by omega))

theorem type_ne_table {v : Value} (h : forall u, v ≠ Value.table u) :
    v.type ≠ LuaType.table := by
  cases v with
  | table u => exact absurd rfl (h u)
  | _ => exact LuaType.noConfusion

theorem spends_isDisabled (hbare : forall u, ConfigTable env st u ->
    st.metatable u = none) (name : List UInt8) :
    exists b, Spends (isDisabled env name) st 0 b st ∧
      (b = true <-> IsDisabled env st name) := by
  have hconfig : Spends (getfield env (Value.table env.config)
      (ascii "disable_modules")) st 0
      (st.rawget env.config (luaString "disable_modules")) st :=
    spends_getfield _ (metamethod_of_bare (hbare _ ConfigTable.config) _)
  by_cases htable : exists d, st.rawget env.config
      (luaString "disable_modules") = Value.table d
  · rcases htable with ⟨d, hd⟩
    rw [hd] at hconfig
    have hentry : Spends (getfield env (Value.table d) name) st 0
        (st.rawget d (Value.string name)) st :=
      spends_getfield _ (metamethod_of_bare
        (hbare _ (ConfigTable.disabled hd)) _)
    refine ⟨decide (st.rawget d (Value.string name) ≠ Value.nil), ?_, ?_⟩
    · change Spends _ st (0 + (0 + 0)) _ st
      unfold isDisabled
      apply Spends.bind hconfig
      exact Spends.bind hentry (Spends.pure _)
    · rw [decide_eq_true_iff]
      constructor
      · intro h
        exact ⟨d, hd, h⟩
      · rintro ⟨d', hd', h⟩
        cases hd.symm.trans hd'
        exact h
  · refine ⟨false, ?_, ?_⟩
    · change Spends _ st (0 + 0) _ st
      unfold isDisabled
      apply Spends.bind hconfig
      rw [if_pos (type_ne_table (fun d hd => htable ⟨d, hd⟩))]
      exact Spends.pure _
    · constructor
      · exact Bool.noConfusion
      · rintro ⟨d, hd, _⟩
        exact absurd ⟨d, hd⟩ htable

theorem spends_removeEntries (hbare : forall u, ConfigTable env st u ->
    st.metatable u = none) (ht : ¬ ConfigTable env st t)
    (hmeta : forall m, st.metatable t = some m -> m ≠ t)
    (hnew : st.metamethod (Value.table t) "__newindex" = Value.nil)
    {name : List UInt8} {xs : List Value} (hxs : Removals env st name xs) :
    exists c n, forall fuel, n < fuel ->
      Spends (removeEntries env fuel name (Value.table t)) st c ()
        (stripped t xs st) := by
  have hconfig : Spends (getfield env (Value.table env.config)
      (ascii "remove_entries")) st 0
      (st.rawget env.config (luaString "remove_entries")) st :=
    spends_getfield _ (metamethod_of_bare (hbare _ ConfigTable.config) _)
  have hentry : forall r, st.rawget env.config
      (luaString "remove_entries") = Value.table r ->
      Spends (getfield env (Value.table r) name) st 0
        (st.rawget r (Value.string name)) st := fun r hr =>
    spends_getfield _ (metamethod_of_bare
      (hbare _ (ConfigTable.removed hr)) _)
  rcases hxs with ⟨l, k, ⟨r, hr, hl⟩, hends, rfl⟩ | ⟨hnone, rfl⟩
  · have hne : l ≠ t := by
      intro h
      rw [h] at hl
      exact ht (ConfigTable.list hr hl)
    have hlist := hentry r hr
    rw [hr] at hconfig
    rw [hl] at hlist
    rcases spends_removeLoop env hne hends hmeta hnew
      (Nat.zero_add k) with ⟨c, hloop⟩
    refine ⟨0 + (0 + c), k, ?_⟩
    intro fuel hfuel
    unfold removeEntries
    apply Spends.bind hconfig
    exact Spends.bind hlist (hloop fuel hfuel)
  · refine ⟨0 + (0 + 0), 0, ?_⟩
    intro fuel _
    unfold removeEntries
    apply Spends.bind hconfig
    by_cases htable : exists r, st.rawget env.config
        (luaString "remove_entries") = Value.table r
    · rcases htable with ⟨r, hr⟩
      rw [hr]
      apply Spends.bind (hentry r hr)
      have hvalue : forall l, st.rawget r (Value.string name) ≠
          Value.table l := fun l hl => hnone l ⟨r, hr, hl⟩
      cases hv : st.rawget r (Value.string name) with
      | table l => exact absurd hv (hvalue l)
      | _ => exact Spends.pure ()
    · rw [if_pos (type_ne_table (fun r hr => htable ⟨r, hr⟩))]
      exact Spends.pure ()

/-!
## Opening and requiring
-/

/-- Nothing is in the way of a library that is not there yet. -/
structure Loadable (env : ModuleEnv) (st : ModuleState)
    (name : List UInt8) : Prop where
  config_bare : forall u, ConfigTable env st u -> st.metatable u = none
  config_lt : forall u, ConfigTable env st u -> u < st.sb.fresh
  loaded_bare : st.metatable env.loaded = none
  loaded_lt : env.loaded < st.sb.fresh
  loaded_config : ¬ ConfigTable env st env.loaded
  globals_lt : env.globals < st.sb.fresh
  globals_ne : env.globals ≠ env.loaded
  globals_config : ¬ ConfigTable env st env.globals
  handlers : forall m, st.metatable env.globals = some m ->
    m ≠ env.loaded ∧ m < st.sb.fresh
  newindex : st.metamethod (Value.table env.globals) "__newindex" = Value.nil
  fresh_bare : forall u, st.sb.fresh <= u -> st.metatable u = none
  unset : st.rawget env.globals (Value.string name) = Value.nil

end

/-- A name without a dot names one table. -/
theorem splitOn_of_not_mem {name : List UInt8} (h : 46 ∉ name) :
    name.splitOn 46 = [name] := by
  rw [List.splitOn_eq_splitOnP]
  apply List.splitOnP_eq_singleton
  intro b hb
  have hne : b ≠ 46 := by
    intro h46
    rw [h46] at hb
    exact h hb
  exact beq_false_of_ne hne

/-- The library is registered under the name of the module. -/
structure RegistersAs (lib : Library) (name : List UInt8) : Prop where
  register : lib.register = name
  no_dot : 46 ∉ name
  ne_base : name ≠ ascii "_G"

section

variable {env : ModuleEnv} {st : ModuleState} {name : List UInt8}

theorem addTable_metamethod_of_lt {t : Nat} {event : String}
    (h : forall m, st.metatable t = some m -> m < st.sb.fresh) :
    st.addTable.metamethod (Value.table t) event =
      st.metamethod (Value.table t) event := by
  cases hm : st.metatable t with
  | none =>
      have hm' : st.addTable.metatable t = none := hm
      rw [metamethod_of_bare hm, metamethod_of_bare hm']
  | some m =>
      have hm' : st.addTable.metatable t = some m := hm
      rw [metamethod_of_some hm, metamethod_of_some hm']
      unfold ModuleState.rawget
      rw [addTable_tables_of_ne (Nat.ne_of_lt (h m hm))]

/-- The state in which the sentinel stands for the module. -/
def marked (env : ModuleEnv) (name : List UInt8) (st : ModuleState) :
    ModuleState :=
  st.assign env.loaded (Value.string name)
    (Value.lightuserdata env.sentinel)

theorem spends_openLibrary {lib : Library} (h : Loadable env st name)
    (hlib : RegistersAs lib name) :
    exists c, Spends (openLibrary env lib) (marked env name st) c st.sb.fresh
      (registered st.sb.fresh lib.functions (introduced env name st)) := by
  have hfresh : (marked env name st).sb.fresh = st.sb.fresh :=
    assign_fresh _ _ _ _
  have hmeta : (marked env name st).metatable = st.metatable :=
    assign_metatable _ _ _ _
  have hsentinel : (marked env name st).rawget env.loaded
      (Value.string name) = Value.lightuserdata env.sentinel := by
    unfold marked
    rw [assign_rawget _ _ _ (isTableKey_string name)]
    exact if_pos (isTableKey_string name).2
  have hget : Spends (getfield env (Value.table env.loaded) name)
      (marked env name st) 0 _ (marked env name st) :=
    spends_getfield name (metamethod_of_bare
      ((congrFun hmeta _).trans h.loaded_bare) _)
  rw [hsentinel] at hget
  have hlook : Spends (look (fun s => s.rawget env.globals
      (Value.string name))) (marked env name st) 0
      ((marked env name st).rawget env.globals (Value.string name))
      (marked env name st) := Spends.look (fun _ => rfl)
  have hunset : (marked env name st).rawget env.globals
      (Value.string name) = Value.nil := by
    unfold marked
    rw [assign_rawget_of_ne _ _ _ _ h.globals_ne]
    exact h.unset
  rw [hunset] at hlook
  have hnew : Spends luaNewtable (marked env name st) 1 st.sb.fresh
      (marked env name st).addTable := by
    have hnew : Spends luaNewtable (marked env name st) 1
        (marked env name st).sb.fresh (marked env name st).addTable :=
      Spends.newtable
    rw [hfresh] at hnew
    exact hnew
  have hindex : (marked env name st).addTable.metamethod
      (Value.table env.globals) "__newindex" = Value.nil := by
    rw [addTable_metamethod_of_lt]
    · unfold marked
      rw [assign_metamethod_of_ne _ _ _ (fun m hm => (h.handlers m hm).1)]
      exact h.newindex
    · intro m hm
      rw [hmeta] at hm
      rw [hfresh]
      exact (h.handlers m hm).2
  rcases spends_setfield env name (Value.table st.sb.fresh) hindex
    with ⟨c, hglobal⟩
  have hloaded : ((marked env name st).addTable.assign env.globals
      (Value.string name) (Value.table st.sb.fresh)).metatable env.loaded =
        none := by
    rw [assign_metatable]
    exact (congrFun hmeta _).trans h.loaded_bare
  rcases spends_setfield env name (Value.table st.sb.fresh)
    (metamethod_of_bare hloaded "__newindex") with ⟨d, hmodule⟩
  have hbare : (introduced env name st).metatable st.sb.fresh = none := by
    unfold introduced
    rw [assign_metatable, assign_metatable]
    exact (congrFun hmeta _).trans (h.fresh_bare _ (Nat.le_refl _))
  rcases spends_registerFunctions env hbare lib.functions with
    ⟨k, hfunctions⟩
  have htable : Spends (findtable env name [name] env.globals)
      (marked env name st) (0 + (1 + (c + 0))) st.sb.fresh
      ((marked env name st).addTable.assign env.globals (Value.string name)
        (Value.table st.sb.fresh)) := by
    unfold findtable
    apply Spends.bind hlook
    apply Spends.bind hnew
    apply Spends.bind hglobal
    exact Spends.pure _
  refine ⟨0 + ((0 + (1 + (c + 0))) + (d + (0 + (k + 0)))), ?_⟩
  unfold openLibrary
  rw [hlib.register, splitOn_of_not_mem hlib.no_dot, if_neg hlib.ne_base]
  apply Spends.bind hget
  apply Spends.bind htable
  apply Spends.bind hmodule
  apply Spends.bind (Spends.pure _)
  exact Spends.bind hfunctions (Spends.pure _)

/-- The call goes on as another one, behind `c` allocations. -/
structure Leads {α : Type} (x : ModuleCall α) (st : ModuleState) (c : Nat)
    (y : ModuleCall α) (st' : ModuleState) : Prop where
  done : forall n, c <= n ->
    x.run (st.setRoom n) = y.run (st'.setRoom (n - c))
  refused : forall n, n < c -> exists st'',
    x.run (st.setRoom n) = (Except.error outOfMemory, st'')

theorem Spends.leads {α β : Type} {x : ModuleCall α} {f : α -> ModuleCall β}
    {y : ModuleCall β} {st st' st'' : ModuleState} {c d : Nat} {a : α}
    (hx : Spends x st c a st') (hf : Leads (f a) st' d y st'') :
    Leads (x >>= f) st (c + d) y st'' where
  done := by
    intro n hn
    rw [Computation.run_bind_ok (hx.done n (by omega)),
      hf.done (n - c) (by omega), Nat.sub_sub]
  refused := by
    intro n hn
    by_cases hc : n < c
    · rcases hx.refused n hc with ⟨s, hs⟩
      exact ⟨s, Computation.run_bind_error hs⟩
    · rcases hf.refused (n - c) (by omega) with ⟨s, hs⟩
      refine ⟨s, ?_⟩
      rw [Computation.run_bind_ok (hx.done n (by omega)), hs]

theorem Leads.refl {α : Type} (x : ModuleCall α) (st : ModuleState) :
    Leads x st 0 x st where
  done := fun _ _ => rfl
  refused := fun _ hn => absurd hn (Nat.not_lt_zero _)

theorem Leads.spends {α : Type} {x y : ModuleCall α}
    {st st' st'' : ModuleState} {c d : Nat} {a : α}
    (hx : Leads x st c y st') (hy : Spends y st' d a st'') :
    Spends x st (c + d) a st'' where
  done := by
    intro n hn
    rw [hx.done n (by omega), hy.done (n - c) (by omega), Nat.sub_sub]
  refused := by
    intro n hn
    by_cases hc : n < c
    · exact hx.refused n hc
    · rcases hy.refused (n - c) (by omega) with ⟨s, hs⟩
      refine ⟨s, ?_⟩
      rw [hx.done n (by omega), hs]

/-- What is left to do when the functions are registered. -/
def restrict (env : ModuleEnv) (fuel : Nat) (name : List UInt8) (t : Nat) :
    ModuleCall Value := do
  addEmptyMetatable t
  removeEntries env fuel name (Value.table t)
  pure (Value.table t)

theorem require_leads {lib : Library} (h : Loadable env st name)
    (hlib : env.preloaded name = some lib) (hregister : RegistersAs lib name)
    (henabled : ¬ IsDisabled env st name)
    (habsent : st.rawget env.loaded (Value.string name) = Value.nil) :
    exists c, forall fuel, Leads (require env fuel name) st c
      (restrict env fuel name st.sb.fresh)
      (filled env name lib.functions st) := by
  rcases spends_isDisabled h.config_bare name with ⟨b, hdisabled, hb⟩
  have hfalse : b = false := by
    cases b with
    | false => rfl
    | true => exact absurd (hb.mp rfl) henabled
  rw [hfalse] at hdisabled
  have hget : Spends (getfield env (Value.table env.loaded) name) st 0 _ st :=
    spends_getfield name (metamethod_of_bare h.loaded_bare _)
  rw [habsent] at hget
  rcases spends_setfield env name (Value.lightuserdata env.sentinel)
    (metamethod_of_bare h.loaded_bare "__newindex") with ⟨c, hmark⟩
  rcases spends_openLibrary h hregister with ⟨d, hopen⟩
  have hbare : (registered st.sb.fresh lib.functions
      (introduced env name st)).metatable env.loaded = none := by
    rw [(registered_frame _ _ _).2.1]
    unfold introduced
    rw [assign_metatable, assign_metatable]
    change (st.assign _ _ _).metatable env.loaded = none
    rw [assign_metatable]
    exact h.loaded_bare
  rcases spends_setfield env name (Value.table st.sb.fresh)
    (metamethod_of_bare hbare "__newindex") with ⟨k, hmodule⟩
  refine ⟨0 + (0 + (c + (d + (k + 0)))), ?_⟩
  intro fuel
  unfold require
  apply Spends.leads hdisabled
  apply Spends.leads hget
  rw [hlib]
  apply Spends.leads hmark
  apply Spends.leads hopen
  apply Spends.leads hmodule
  exact Leads.refl _ _

/-- What stays as it is until the functions are registered. -/
theorem filled_frame (env : ModuleEnv) (name : List UInt8)
    (fs : List (List UInt8 × Nat)) (st : ModuleState) :
    (forall u, u ≠ env.loaded -> u ≠ env.globals -> u ≠ st.sb.fresh ->
      (filled env name fs st).tables u = st.tables u) ∧
      (filled env name fs st).metatable = st.metatable ∧
      (filled env name fs st).sb.fresh = st.sb.fresh + 1 ∧
      (filled env name fs st).given = st.given := by
  rcases registered_frame st.sb.fresh (introduced env name st) fs with
    ⟨htables, hmeta, hfresh, hgiven⟩
  have hmarked : (st.assign env.loaded (Value.string name)
      (Value.lightuserdata env.sentinel)).sb.fresh = st.sb.fresh :=
    assign_fresh _ _ _ _
  unfold filled
  refine ⟨?_, ?_, ?_, ?_⟩
  · intro u hloaded hglobals hu
    rw [assign_tables_of_ne _ _ _ _ hloaded, htables u hu]
    unfold introduced
    rw [assign_tables_of_ne _ _ _ _ hloaded,
      assign_tables_of_ne _ _ _ _ hglobals, addTable_tables, hmarked,
      if_neg hu, assign_tables_of_ne _ _ _ _ hloaded]
  · rw [assign_metatable, hmeta]
    unfold introduced
    rw [assign_metatable, assign_metatable]
    exact assign_metatable _ _ _ _
  · rw [assign_fresh, hfresh]
    unfold introduced
    rw [assign_fresh, assign_fresh]
    exact congrArg (fun n => n + 1) hmarked
  · rw [assign_given, hgiven]
    unfold introduced
    rw [assign_given, assign_given]
    exact assign_given _ _ _ _

theorem Loadable.config_ne (h : Loadable env st name) {u : Nat}
    (hu : ConfigTable env st u) :
    u ≠ env.loaded ∧ u ≠ env.globals ∧ u ≠ st.sb.fresh := by
  refine ⟨?_, ?_, Nat.ne_of_lt (h.config_lt u hu)⟩
  · intro heq
    rw [heq] at hu
    exact h.loaded_config hu
  · intro heq
    rw [heq] at hu
    exact h.globals_config hu

theorem Removals.of_same {st' : ModuleState}
    (h : SameRestrictions env st st') {xs : List Value}
    (hxs : Removals env st name xs) : Removals env st' name xs := by
  rcases hxs with ⟨l, n, hlist, ⟨hnil, hkeys⟩, hxs⟩ | ⟨hnone, hxs⟩
  · have hsame : forall i, listAt st' l i = listAt st l i :=
      fun i => h.rawget hlist.configTable _
    refine Or.inl ⟨l, n, h.hasList hlist, ⟨?_, ?_⟩, ?_⟩
    · rw [hsame n]
      exact hnil
    · intro i hi
      rw [hsame i]
      exact hkeys i hi
    · rw [hxs]
      unfold listed
      exact List.map_congr_left (fun i _ => (hsame i).symm)
  · exact Or.inr ⟨fun l hl => hnone l (h.symm.hasList hl), hxs⟩

/-- The state with the metatable of the library. -/
def flagged (env : ModuleEnv) (name : List UInt8)
    (fs : List (List UInt8 × Nat)) (st : ModuleState) : ModuleState :=
  (filled env name fs st).addTable.setMetatable st.sb.fresh
    (some (st.sb.fresh + 1))

theorem flagged_tables (h : Loadable env st name)
    (fs : List (List UInt8 × Nat)) {u : Nat} (hu : ConfigTable env st u) :
    (flagged env name fs st).tables u = st.tables u := by
  rcases filled_frame env name fs st with ⟨htables, _, hfresh, _⟩
  rcases h.config_ne hu with ⟨hloaded, hglobals, hne⟩
  have hlt := h.config_lt u hu
  change (filled env name fs st).addTable.tables u = _
  rw [addTable_tables, hfresh, if_neg (by omega)]
  exact htables u hloaded hglobals hne

theorem flagged_same (h : Loadable env st name)
    (fs : List (List UInt8 × Nat)) :
    SameRestrictions env st (flagged env name fs st) :=
  fun _ hu => flagged_tables h fs hu

theorem flagged_metatable (env : ModuleEnv) (name : List UInt8)
    (fs : List (List UInt8 × Nat)) (st : ModuleState) (u : Nat) :
    (flagged env name fs st).metatable u =
      if u = st.sb.fresh then some (st.sb.fresh + 1) else st.metatable u := by
  change (if u = st.sb.fresh then some (st.sb.fresh + 1)
    else (filled env name fs st).metatable u) = _
  rw [(filled_frame env name fs st).2.1]

theorem spends_restrict (h : Loadable env st name)
    (fs : List (List UInt8 × Nat)) {xs : List Value}
    (hxs : Removals env st name xs) :
    exists c n, forall fuel, n < fuel ->
      Spends (restrict env fuel name st.sb.fresh) (filled env name fs st) c
        (Value.table st.sb.fresh)
        (stripped st.sb.fresh xs (flagged env name fs st)) := by
  have hsame := flagged_same h fs
  rcases filled_frame env name fs st with ⟨_, hmeta, hfresh, _⟩
  have hlook : Spends (look (fun s => s.metatable st.sb.fresh))
      (filled env name fs st) 0
      ((filled env name fs st).metatable st.sb.fresh)
      (filled env name fs st) := Spends.look (fun _ => rfl)
  rw [hmeta, h.fresh_bare _ (Nat.le_refl _)] at hlook
  have hnew : Spends luaNewtable (filled env name fs st) 1
      (filled env name fs st).sb.fresh (filled env name fs st).addTable :=
    Spends.newtable
  rw [hfresh] at hnew
  have hset : Spends (change (fun s => s.setMetatable st.sb.fresh
      (some (st.sb.fresh + 1)))) (filled env name fs st).addTable 0 ()
      (flagged env name fs st) := Spends.change (fun _ => rfl)
  have hbare : forall u, ConfigTable env (flagged env name fs st) u ->
      (flagged env name fs st).metatable u = none := by
    intro u hu
    have hu' := hsame.configTable.mp hu
    rw [flagged_metatable, if_neg (h.config_ne hu').2.2]
    exact h.config_bare u hu'
  have ht : ¬ ConfigTable env (flagged env name fs st) st.sb.fresh := by
    intro ht
    exact (h.config_ne (hsame.configTable.mp ht)).2.2 rfl
  have hsome : (flagged env name fs st).metatable st.sb.fresh =
      some (st.sb.fresh + 1) := by
    rw [flagged_metatable, if_pos rfl]
  have hne : forall m, (flagged env name fs st).metatable st.sb.fresh =
      some m -> m ≠ st.sb.fresh := by
    intro m hm
    cases hsome.symm.trans hm
    exact Nat.succ_ne_self _
  have hindex : (flagged env name fs st).metamethod
      (Value.table st.sb.fresh) "__newindex" = Value.nil := by
    rw [metamethod_of_some hsome]
    change RawTable.rawget ((filled env name fs st).addTable.tables _) _ = _
    rw [addTable_tables, hfresh, if_pos rfl]
    rfl
  rcases spends_removeEntries hbare ht hne hindex (hxs.of_same hsame) with
    ⟨c, n, hremove⟩
  refine ⟨(0 + (1 + 0)) + (c + 0), n, ?_⟩
  intro fuel hfuel
  have hempty : Spends (addEmptyMetatable st.sb.fresh)
      (filled env name fs st) (0 + (1 + 0)) () (flagged env name fs st) := by
    unfold addEmptyMetatable
    apply Spends.bind hlook
    exact Spends.bind hnew hset
  unfold restrict
  apply Spends.bind hempty
  exact Spends.bind (hremove fuel hfuel) (Spends.pure _)

/-- A library that is required for the first time is opened. -/
theorem spends_require {lib : Library} (h : Loadable env st name)
    (hlib : env.preloaded name = some lib) (hregister : RegistersAs lib name)
    (henabled : ¬ IsDisabled env st name)
    (habsent : st.rawget env.loaded (Value.string name) = Value.nil)
    {xs : List Value} (hxs : Removals env st name xs) :
    exists c n, forall fuel, n < fuel ->
      Spends (require env fuel name) st c (Value.table st.sb.fresh)
        (stripped st.sb.fresh xs (flagged env name lib.functions st)) := by
  rcases require_leads h hlib hregister henabled habsent with ⟨c, hleads⟩
  rcases spends_restrict h lib.functions hxs with ⟨d, n, htail⟩
  refine ⟨c + d, n, ?_⟩
  intro fuel hfuel
  exact (hleads fuel).spends (htail fuel hfuel)

theorem filled_loaded (h : Loadable env st name)
    (fs : List (List UInt8 × Nat)) (key : List UInt8) :
    (filled env name fs st).rawget env.loaded (Value.string key) =
      if key = name then Value.table st.sb.fresh
      else st.rawget env.loaded (Value.string key) := by
  have hlt := Nat.ne_of_lt h.loaded_lt
  have hglobals := h.globals_ne.symm
  have hequal : rawequal (Value.string name) (Value.string key) = true <->
      key = name := by
    have hstring : (Value.string name).type ≠ LuaType.number :=
      LuaType.noConfusion
    rw [rawequal_of_ne_number hstring, Value.string.injEq, eq_comm]
  unfold filled
  rw [assign_rawget _ _ _ (isTableKey_string name)]
  by_cases hkey : key = name
  · rw [if_pos (hequal.mpr hkey), if_pos hkey]
  · have hne : ¬ rawequal (Value.string name) (Value.string key) = true :=
      fun heq => hkey (hequal.mp heq)
    rw [if_neg hne, if_neg hkey]
    unfold ModuleState.rawget
    rw [(registered_frame _ _ _).1 _ hlt]
    change (introduced env name st).rawget env.loaded (Value.string key) = _
    unfold introduced
    rw [assign_rawget _ _ _ (isTableKey_string name), if_neg hne,
      assign_rawget_of_ne _ _ _ _ hglobals]
    unfold ModuleState.rawget
    rw [addTable_tables, assign_fresh, if_neg hlt]
    change (st.assign env.loaded _ _).rawget env.loaded _ = _
    rw [assign_rawget _ _ _ (isTableKey_string name), if_neg hne]
    rfl

theorem flagged_loaded (h : Loadable env st name)
    (fs : List (List UInt8 × Nat)) (key : List UInt8) :
    (flagged env name fs st).rawget env.loaded (Value.string key) =
      if key = name then Value.table st.sb.fresh
      else st.rawget env.loaded (Value.string key) := by
  rw [← filled_loaded h fs key]
  change RawTable.rawget ((filled env name fs st).addTable.tables _) _ = _
  have hlt := h.loaded_lt
  rw [addTable_tables, (filled_frame env name fs st).2.2.1,
    if_neg (by omega)]
  rfl

/-- A function that is registered under a name of its own is found there. -/
theorem registered_rawget (t : Nat) {fs : List (List UInt8 × Nat)}
    (hnodup : (fs.map Prod.fst).Nodup) {f : List UInt8 × Nat} (hf : f ∈ fs)
    (st : ModuleState) :
    (registered t fs st).rawget t (Value.string f.1) =
      Value.cfunction f.2 := by
  have hkeep : forall (rest : List (List UInt8 × Nat)) (s : ModuleState),
      f.1 ∉ rest.map Prod.fst ->
      (registered t rest s).rawget t (Value.string f.1) =
        s.rawget t (Value.string f.1) := by
    intro rest
    induction rest with
    | nil => exact fun _ _ => rfl
    | cons g rest ih =>
        intro s hnot
        have hne : f.1 ≠ g.1 :=
          fun heq => hnot (heq ▸ List.mem_cons_self)
        have hrest := ih (s.assign t (Value.string g.1)
          (Value.cfunction g.2)) (fun h => hnot (List.mem_cons_of_mem _ h))
        rw [assign_rawget _ _ _ (isTableKey_string g.1)] at hrest
        refine hrest.trans (if_neg ?_)
        have hstring : (Value.string g.1).type ≠ LuaType.number :=
          LuaType.noConfusion
        rw [rawequal_of_ne_number hstring, Value.string.injEq]
        exact hne.symm
  induction fs generalizing st with
  | nil => exact absurd hf List.not_mem_nil
  | cons g rest ih =>
      rw [List.map_cons, List.nodup_cons] at hnodup
      rcases List.mem_cons.mp hf with rfl | hmem
      · refine (hkeep rest _ hnodup.1).trans ?_
        rw [assign_rawget _ _ _ (isTableKey_string f.1)]
        exact if_pos (isTableKey_string f.1).2
      · exact ih hnodup.2 hmem _

end

end Core
end LuaSandbox
