import LuaSandbox.Core.LibraryOpening
import LuaSandbox.Core.Restrictions
import LuaSandbox.Heka.Plugin

/-!
# The restrictions of a plugin

What the sandbox writes into the configuration of a plugin before it is
initialized: the modules that are disabled and the entries that are removed.
-/

namespace LuaSandbox
namespace Heka

open Foundation Lua
open Core

/-!
## The lists
-/

/-- A NULL stands in front of the name of a library. -/
def ioRestrictions : List (Option String) :=
  [none, some "", some "dofile", some "load", some "loadfile",
    some "loadstring", some "newproxy",
    none, some "os", some "exit", some "setlocale",
    none, some "string", some "dump"]

def analysisRestrictions : List (Option String) :=
  [none, some "", some "collectgarbage", some "dofile", some "load",
    some "loadfile", some "loadstring", some "newproxy", some "print",
    none, some "os", some "getenv", some "execute", some "exit",
    some "remove", some "rename", some "setlocale", some "tmpname",
    none, some "string", some "dump"]

def restrictions : PluginType -> List (Option String)
  | PluginType.input | PluginType.output => ioRestrictions
  | PluginType.analysis => analysisRestrictions

section

variable (env : ModuleEnv)

/-- The loop over an array, with the table `r` of the lists, the list on top of
it and the place of the next entry. -/
def restrictionLoop (r : Nat) : List (Option String) -> Nat -> Int ->
    ModuleCall Unit
  | [], _, _ => pure ()
  | some entry :: rest, l, j => do
      rawseti l j (luaString entry)
      restrictionLoop r rest l (j + 1)
  | none :: some name :: rest, _, _ => do
      let l <- luaNewtable
      setfield env (Value.table r) (ascii name) (Value.table l)
      restrictionLoop r rest l 1
  -- not in the arrays
  | none :: _, _, _ => pure ()

def disableModules : PluginType -> ModuleCall Unit
  | PluginType.input | PluginType.output => pure ()
  | PluginType.analysis => do
      let d <- luaNewtable
      setfield env (Value.table d) (ascii "io") (Value.boolean true)
      setfield env (Value.table d) (ascii "coroutine") (Value.boolean true)
      setfield env (Value.table env.config) (ascii "disable_modules")
        (Value.table d)

/-- `set_restrictions`, as far as it writes the two tables. -/
def setRestrictions (type : PluginType) : ModuleCall Unit := do
  disableModules env type
  let r <- luaNewtable
  restrictionLoop env r (restrictions type) r 1
  setfield env (Value.table env.config) (ascii "remove_entries")
    (Value.table r)

end

/-!
## The loop
-/

/-- The array of libraries with the names of their entries. -/
def arrayOf (groups : List (String × List String)) : List (Option String) :=
  groups.flatMap (fun g => none :: some g.1 :: g.2.map some)

def removedEntries : PluginType -> List (String × List String)
  | PluginType.input | PluginType.output =>
      [("", ["dofile", "load", "loadfile", "loadstring", "newproxy"]),
        ("os", ["exit", "setlocale"]), ("string", ["dump"])]
  | PluginType.analysis =>
      [("", ["collectgarbage", "dofile", "load", "loadfile", "loadstring",
          "newproxy", "print"]),
        ("os", ["getenv", "execute", "exit", "remove", "rename", "setlocale",
          "tmpname"]), ("string", ["dump"])]

theorem restrictions_eq (type : PluginType) :
    restrictions type = arrayOf (removedEntries type) := by
  cases type <;> rfl

def pushed (l : Nat) : Int -> List String -> ModuleState -> ModuleState
  | _, [], st => st
  | j, entry :: rest, st =>
      pushed l (j + 1) rest (st.assign l (integer (toInt j))
        (luaString entry))

/-- A list with the entries of a library, under its name. -/
def grouped (r : Nat) (g : String × List String) (st : ModuleState) :
    ModuleState :=
  pushed st.sb.fresh 1 g.2 (st.addTable.assign r
    (Value.string (ascii g.1)) (Value.table st.sb.fresh))

def groupedAll (r : Nat) (groups : List (String × List String))
    (st : ModuleState) : ModuleState :=
  groups.foldl (fun s g => grouped r g s) st

section

variable {env : ModuleEnv} {st : ModuleState}

theorem pushed_frame (l : Nat) (j : Int) (entries : List String)
    (st : ModuleState) :
    (forall u, u ≠ l -> (pushed l j entries st).tables u = st.tables u) ∧
      (pushed l j entries st).metatable = st.metatable ∧
      (pushed l j entries st).sb.fresh = st.sb.fresh ∧
      (pushed l j entries st).given = st.given := by
  induction entries generalizing j st with
  | nil => exact ⟨fun _ _ => rfl, rfl, rfl, rfl⟩
  | cons entry rest ih =>
      rcases ih (j + 1) (st.assign l (integer (toInt j)) (luaString entry))
        with ⟨htables, hmeta, hfresh, hgiven⟩
      rw [assign_metatable] at hmeta
      rw [assign_fresh] at hfresh
      rw [assign_given] at hgiven
      refine ⟨?_, hmeta, hfresh, hgiven⟩
      intro u hu
      rw [← assign_tables_of_ne st l (integer (toInt j)) (luaString entry) hu]
      exact htables u hu

theorem leads_entries (env : ModuleEnv) (r l : Nat) (j : Int)
    (entries : List String) (rest : List (Option String)) (st : ModuleState) :
    exists c, Leads
      (restrictionLoop env r (entries.map some ++ rest) l j) st c
      (restrictionLoop env r rest l (j + entries.length))
      (pushed l j entries st) := by
  induction entries generalizing j st with
  | nil =>
      refine ⟨0, ?_⟩
      rw [List.length_nil, Int.natCast_zero, Int.add_zero]
      exact Leads.refl _ _
  | cons entry entries ih =>
      have hset : exists c, Spends (rawseti l j (luaString entry)) st c ()
          (st.assign l (integer (toInt j)) (luaString entry)) :=
        spends_rawseti j (luaString entry)
      rcases hset with ⟨c, hset⟩
      rcases ih (j + 1) (st.assign l (integer (toInt j)) (luaString entry))
        with ⟨d, hrest⟩
      refine ⟨c + d, ?_⟩
      have hplace : j + ((entry :: entries).length : Nat) =
          j + 1 + (entries.length : Nat) := by
        rw [List.length_cons]
        omega
      rw [hplace]
      exact hset.leads hrest

theorem spends_groups (env : ModuleEnv) {r : Nat} (st : ModuleState)
    (hbare : st.metatable r = none) (groups : List (String × List String))
    (l : Nat) (j : Int) :
    exists c, Spends (restrictionLoop env r (arrayOf groups) l j) st c ()
      (groupedAll r groups st) := by
  induction groups generalizing st l j with
  | nil => exact ⟨0, Spends.pure ()⟩
  | cons g groups ih =>
      have hnew : Spends luaNewtable st 1 st.sb.fresh st.addTable :=
        Spends.newtable
      have hbare' : st.addTable.metatable r = none := hbare
      rcases spends_setfield env (ascii g.1) (Value.table st.sb.fresh)
        (metamethod_of_bare hbare' "__newindex") with ⟨c, hset⟩
      rcases leads_entries env r st.sb.fresh 1 g.2 (arrayOf groups)
        (st.addTable.assign r (Value.string (ascii g.1))
          (Value.table st.sb.fresh)) with ⟨d, hentries⟩
      have hbare'' : (grouped r g st).metatable r = none := by
        unfold grouped
        rw [(pushed_frame _ _ _ _).2.1, assign_metatable]
        exact hbare
      rcases ih (grouped r g st) hbare'' st.sb.fresh
        (1 + (g.2.length : Nat)) with ⟨k, hrest⟩
      have hlist := hentries.spends hrest
      refine ⟨1 + (c + (d + k)), ?_⟩
      change Spends (restrictionLoop env r
        (none :: some g.1 :: (g.2.map some ++ arrayOf groups)) l j) st _ () _
      unfold restrictionLoop
      exact Spends.bind hnew (Spends.bind hset hlist)

/-!
## What the tables hold
-/

theorem rawequal_integer {a b : Int} (ha : 0 <= a) (ha' : a <= intMax)
    (hb : 0 <= b) (hb' : b <= intMax) :
    rawequal (integer (toInt a)) (integer (toInt b)) = true <-> a = b := by
  have hmin : intMin <= 0 := by decide
  change Double.Value.eq (Double.ofInt (toInt a)).value
    (Double.ofInt (toInt b)).value = true <-> _
  rw [value_integer_toInt, value_integer_toInt, toInt_of_range (by omega) ha',
    toInt_of_range (by omega) hb']
  change (((a : Int) : Rat) == ((b : Int) : Rat)) = true <-> _
  rw [beq_iff_eq, Int.cast_inj]

theorem listAt_assign {l k i : Nat} (value : Value) (hk : (k : Int) < intMax)
    (hi : (i : Int) < intMax) :
    listAt (st.assign l (integer (toInt ((k : Int) + 1))) value) l i =
      if k = i then value else listAt st l i := by
  unfold listAt
  rw [assign_rawget _ _ _ (isTableKey_integer _)]
  by_cases h : k = i
  · rw [if_pos h, h, if_pos (isTableKey_integer _).2]
  · have hne : ¬ rawequal (integer (toInt ((k : Int) + 1)))
        (integer (toInt ((i : Int) + 1))) = true := by
      rw [rawequal_integer (by omega) (by omega) (by omega) (by omega)]
      omega
    rw [if_neg hne, if_neg h]

theorem pushed_cons (l : Nat) (j : Int) (entry : String)
    (rest : List String) (st : ModuleState) :
    pushed l j (entry :: rest) st =
      pushed l (j + 1) rest (st.assign l (integer (toInt j))
        (luaString entry)) :=
  rfl

theorem listAt_pushed_of_lt (st : ModuleState) {l k i : Nat}
    (entries : List String) (hi : i < k)
    (hlen : ((k + entries.length : Nat) : Int) <= intMax) :
    listAt (pushed l ((k : Int) + 1) entries st) l i = listAt st l i := by
  induction entries generalizing st k with
  | nil => rfl
  | cons entry rest ih =>
      rw [List.length_cons] at hlen
      have hnext : i < k + 1 := by omega
      have hlen' : ((k + 1 + rest.length : Nat) : Int) <= intMax := by omega
      have hk : (k : Int) < intMax := by omega
      have hi' : (i : Int) < intMax := by omega
      have hrest := fun s => ih s hnext hlen'
      rw [Nat.cast_succ] at hrest
      rw [pushed_cons, hrest, listAt_assign _ hk hi',
        if_neg (Nat.ne_of_gt hi)]

theorem listAt_pushed (st : ModuleState) {l k i : Nat}
    (entries : List String)
    (hlen : ((k + entries.length : Nat) : Int) <= intMax)
    (hi : ((k + i : Nat) : Int) < intMax) :
    listAt (pushed l ((k : Int) + 1) entries st) l (k + i) =
      (entries[i]?.map luaString).getD (listAt st l (k + i)) := by
  induction entries generalizing st k i with
  | nil => rfl
  | cons entry rest ih =>
      rw [List.length_cons] at hlen
      cases i with
      | zero =>
          have hlen' : ((k + 1 + rest.length : Nat) : Int) <= intMax := by
            omega
          have hk : (k : Int) < intMax := by omega
          have hfirst := fun s => listAt_pushed_of_lt (l := l) s rest
            (Nat.lt_succ_self k) hlen'
          rw [Nat.cast_succ] at hfirst
          rw [pushed_cons, Nat.add_zero, hfirst, listAt_assign _ hk hk,
            if_pos rfl]
          rfl
      | succ i =>
          have hlen' : ((k + 1 + rest.length : Nat) : Int) <= intMax := by
            omega
          have hk : (k : Int) < intMax := by omega
          have hi' : ((k + 1 + i : Nat) : Int) < intMax := by omega
          have hrest := fun s => ih s hlen' hi'
          rw [Nat.cast_succ] at hrest
          have hplace : k + (i + 1) = k + 1 + i := by omega
          rw [pushed_cons, hplace, hrest, listAt_assign _ hk hi',
            if_neg (by omega), List.getElem?_cons_succ]

/-- What the loop leaves in the table `r`. -/
structure HoldsLists (r : Nat) (groups : List (String × List String))
    (st st' : ModuleState) : Prop where
  fresh_le : st.sb.fresh <= st'.sb.fresh
  frame : forall u, u < st.sb.fresh -> u ≠ r -> st'.tables u = st.tables u
  metatable : st'.metatable = st.metatable
  given : st'.given = st.given
  list : forall g, g ∈ groups -> exists l,
    (st.sb.fresh <= l ∧ l < st'.sb.fresh) ∧
      st'.rawget r (Value.string (ascii g.1)) = Value.table l ∧
      forall i : Nat, (i : Int) < intMax ->
        listAt st' l i = (g.2[i]?.map luaString).getD Value.nil
  other : forall k, (forall g, g ∈ groups -> ascii g.1 ≠ k) ->
    st'.rawget r (Value.string k) = st.rawget r (Value.string k)

theorem grouped_holds {r : Nat} (hr : r < st.sb.fresh)
    (g : String × List String) (hlen : (g.2.length : Int) <= intMax) :
    HoldsLists r [g] st (grouped r g st) := by
  have hne : r ≠ st.sb.fresh := Nat.ne_of_lt hr
  rcases pushed_frame st.sb.fresh 1 g.2 (st.addTable.assign r
    (Value.string (ascii g.1)) (Value.table st.sb.fresh)) with
    ⟨htables, hmeta, hfresh, hgiven⟩
  have hfresh' : (grouped r g st).sb.fresh = st.sb.fresh + 1 := by
    rw [assign_fresh] at hfresh
    exact hfresh
  have hrow : forall k, (grouped r g st).rawget r (Value.string k) =
      if ascii g.1 = k then Value.table st.sb.fresh
      else st.rawget r (Value.string k) := by
    intro k
    unfold ModuleState.rawget
    change RawTable.rawget ((pushed _ _ _ _).tables r) _ = _
    rw [htables r hne]
    change (st.addTable.assign r _ _).rawget r _ = _
    rw [assign_rawget _ _ _ (isTableKey_string _)]
    have hstring : (Value.string (ascii g.1)).type ≠ LuaType.number :=
      LuaType.noConfusion
    have hequal : rawequal (Value.string (ascii g.1)) (Value.string k) = true
        <-> ascii g.1 = k := by
      rw [rawequal_of_ne_number hstring, Value.string.injEq]
    have hold : st.addTable.rawget r (Value.string k) =
        st.rawget r (Value.string k) := by
      unfold ModuleState.rawget
      rw [addTable_tables_of_ne hne]
    simp only [hequal, hold]
    rfl
  constructor
  · rw [hfresh']
    exact Nat.le_succ _
  · intro u hu hur
    change (pushed _ _ _ _).tables u = _
    rw [htables u (Nat.ne_of_lt hu), assign_tables_of_ne _ _ _ _ hur,
      addTable_tables_of_ne (Nat.ne_of_lt hu)]
  · change (pushed _ _ _ _).metatable = _
    rw [hmeta, assign_metatable]
    rfl
  · change (pushed _ _ _ _).given = _
    rw [hgiven, assign_given]
    rfl
  · intro g' hg'
    rcases List.mem_singleton.mp hg' with rfl
    refine ⟨st.sb.fresh, ⟨Nat.le_refl _, ?_⟩, ?_, ?_⟩
    · rw [hfresh']
      exact Nat.lt_succ_self _
    · rw [hrow, if_pos rfl]
    · intro i hi
      have hat := listAt_pushed (st.addTable.assign r
        (Value.string (ascii g'.1)) (Value.table st.sb.fresh))
        (l := st.sb.fresh) (k := 0) (i := i) g'.2 (by omega) (by omega)
      rw [Nat.zero_add] at hat
      have hempty : listAt (st.addTable.assign r (Value.string (ascii g'.1))
          (Value.table st.sb.fresh)) st.sb.fresh i = Value.nil := by
        unfold listAt
        rw [assign_rawget_of_ne _ _ _ _ hne.symm]
        unfold ModuleState.rawget
        rw [addTable_tables, if_pos rfl]
        rfl
      rw [hempty] at hat
      exact hat
  · intro k hk
    rw [hrow, if_neg (hk g List.mem_cons_self)]

theorem groupedAll_holds (st : ModuleState) {r : Nat} (hr : r < st.sb.fresh)
    (groups : List (String × List String))
    (hlen : forall g, g ∈ groups -> (g.2.length : Int) <= intMax)
    (hnodup : (groups.map (fun g => ascii g.1)).Nodup) :
    HoldsLists r groups st (groupedAll r groups st) := by
  induction groups generalizing st with
  | nil =>
      exact ⟨Nat.le_refl _, fun _ _ _ => rfl, rfl, rfl,
        fun _ h => absurd h List.not_mem_nil, fun _ _ => rfl⟩
  | cons g groups ih =>
      rw [List.map_cons, List.nodup_cons] at hnodup
      have hfirst := grouped_holds hr g (hlen g List.mem_cons_self)
      have hrest := ih _ (Nat.lt_of_lt_of_le hr hfirst.fresh_le)
        (fun g' h => hlen g' (List.mem_cons_of_mem _ h)) hnodup.2
      have hother : forall g', g' ∈ groups -> ascii g'.1 ≠ ascii g.1 := by
        intro g' hg' heq
        apply hnodup.1
        rw [← heq]
        exact List.mem_map_of_mem hg'
      constructor
      · exact Nat.le_trans hfirst.fresh_le hrest.fresh_le
      · intro u hu hur
        exact (hrest.frame u (Nat.lt_of_lt_of_le hu hfirst.fresh_le)
          hur).trans (hfirst.frame u hu hur)
      · exact hrest.metatable.trans hfirst.metatable
      · exact hrest.given.trans hfirst.given
      · intro g' hg'
        rcases List.mem_cons.mp hg' with rfl | hmem
        · rcases hfirst.list g' List.mem_cons_self with
            ⟨l, ⟨hlow, hhigh⟩, hrow, hat⟩
          refine ⟨l, ⟨hlow, Nat.lt_of_lt_of_le hhigh hrest.fresh_le⟩, ?_, ?_⟩
          · exact (hrest.other _ hother).trans hrow
          · intro i hi
            rw [← hat i hi]
            unfold listAt ModuleState.rawget
            change ((groupedAll r groups (grouped r g' st)).tables l).rawget _
              = _
            rw [hrest.frame l hhigh (by omega)]
        · rcases hrest.list g' hmem with ⟨l, ⟨hlow, hhigh⟩, hrow, hat⟩
          exact ⟨l, ⟨Nat.le_trans hfirst.fresh_le hlow, hhigh⟩, hrow, hat⟩
      · intro k hk
        refine (hrest.other k ?_).trans (hfirst.other k ?_)
        · exact fun g' h => hk g' (List.mem_cons_of_mem _ h)
        · intro g' h
          rcases List.mem_singleton.mp h with rfl
          exact hk g' List.mem_cons_self

/-!
## The restrictions behind the call
-/

/-- The configuration of a sandbox that has no plugin yet. -/
structure Unrestricted (env : ModuleEnv) (st : ModuleState) : Prop where
  config_lt : env.config < st.sb.fresh
  config_bare : st.metatable env.config = none
  fresh_bare : forall u, st.sb.fresh <= u -> st.metatable u = none

/-- The lists of the libraries, under their names in the configuration. -/
def listsSet (env : ModuleEnv) (groups : List (String × List String))
    (st : ModuleState) : ModuleState :=
  (groupedAll st.sb.fresh groups st.addTable).assign env.config
    (luaString "remove_entries") (Value.table st.sb.fresh)

theorem spends_lists (h : Unrestricted env st)
    (groups : List (String × List String)) :
    exists c, Spends (do
      let r <- luaNewtable
      restrictionLoop env r (arrayOf groups) r 1
      setfield env (Value.table env.config) (ascii "remove_entries")
        (Value.table r)) st c () (listsSet env groups st) := by
  have hnew : Spends luaNewtable st 1 st.sb.fresh st.addTable :=
    Spends.newtable
  rcases spends_groups env st.addTable (h.fresh_bare _ (Nat.le_refl _)) groups
    st.sb.fresh 1 with ⟨c, hloop⟩
  have hmeta : forall (gs : List (String × List String)) (s : ModuleState),
      (groupedAll st.sb.fresh gs s).metatable = s.metatable := by
    intro gs
    induction gs with
    | nil => exact fun _ => rfl
    | cons g gs ih =>
        intro s
        refine (ih (grouped st.sb.fresh g s)).trans ?_
        unfold grouped
        rw [(pushed_frame _ _ _ _).2.1, assign_metatable]
        rfl
  have hbare : (groupedAll st.sb.fresh groups st.addTable).metatable
      env.config = none := by
    rw [hmeta]
    exact h.config_bare
  rcases spends_setfield env (ascii "remove_entries")
    (Value.table st.sb.fresh) (metamethod_of_bare hbare "__newindex") with
    ⟨d, hset⟩
  exact ⟨1 + (c + d), Spends.bind hnew (Spends.bind hloop hset)⟩

theorem listsSet_config (env : ModuleEnv)
    (groups : List (String × List String)) (st : ModuleState) :
    (listsSet env groups st).rawget env.config
      (luaString "remove_entries") = Value.table st.sb.fresh := by
  have hkey : IsTableKey (luaString "remove_entries") := isTableKey_string _
  unfold listsSet
  rw [assign_rawget _ _ _ hkey]
  exact if_pos hkey.2

theorem listsSet_tables_of_ne (groups : List (String × List String))
    (st : ModuleState) {u : Nat} (hu : u ≠ env.config) :
    (listsSet env groups st).tables u =
      (groupedAll st.sb.fresh groups st.addTable).tables u :=
  assign_tables_of_ne _ _ _ _ hu

/-- A list of the configuration is one of the array. -/
theorem hasList_listsSet (h : Unrestricted env st)
    {groups : List (String × List String)}
    (hholds : HoldsLists st.sb.fresh groups st.addTable
      (groupedAll st.sb.fresh groups st.addTable))
    {name : List UInt8} {l : Nat}
    (hl : HasList env (listsSet env groups st) name l) :
    exists g, g ∈ groups ∧ ascii g.1 = name ∧ st.sb.fresh < l ∧
      forall i : Nat, (i : Int) < intMax ->
        listAt (listsSet env groups st) l i =
          (g.2[i]?.map luaString).getD Value.nil := by
  rcases hl with ⟨r, hr, hl⟩
  cases (listsSet_config env groups st).symm.trans hr
  unfold ModuleState.rawget at hl
  rw [listsSet_tables_of_ne groups st (Nat.ne_of_gt h.config_lt)] at hl
  by_cases hname : exists g, g ∈ groups ∧ ascii g.1 = name
  · rcases hname with ⟨g, hg, rfl⟩
    rcases hholds.list g hg with ⟨l', ⟨hlow, _⟩, hrow, hat⟩
    cases hl.symm.trans hrow
    refine ⟨g, hg, rfl, hlow, ?_⟩
    intro i hi
    have hlt := h.config_lt
    have hne : l ≠ env.config := by
      change st.sb.fresh + 1 <= l at hlow
      omega
    rw [← hat i hi]
    unfold listAt ModuleState.rawget
    rw [listsSet_tables_of_ne groups st hne]
  · have hnone : (groupedAll st.sb.fresh groups st.addTable).rawget
        st.sb.fresh (Value.string name) = Value.nil := by
      rw [hholds.other name (fun g hg heq => hname ⟨g, hg, heq⟩)]
      unfold ModuleState.rawget
      rw [addTable_tables, if_pos rfl]
      rfl
    cases hnone.symm.trans hl

/-- The entries that the array names are removed, and no others. -/
theorem isRemoved_listsSet (h : Unrestricted env st)
    {groups : List (String × List String)}
    (hlen : forall g, g ∈ groups -> (g.2.length : Int) < intMax)
    (hnodup : (groups.map (fun g => ascii g.1)).Nodup)
    (name key : List UInt8) :
    IsRemoved env (listsSet env groups st) name key <->
      exists g, g ∈ groups ∧ ascii g.1 = name ∧
        exists e, e ∈ g.2 ∧ ascii e = key := by
  have hholds := groupedAll_holds st.addTable (Nat.lt_succ_self _)
    groups (fun g hg => Int.le_of_lt (hlen g hg)) hnodup
  constructor
  · rintro ⟨l, n, hl, hbefore, hkey⟩
    rcases hasList_listsSet h hholds hl with ⟨g, hg, hname, _, hat⟩
    have hlen' := hlen g hg
    have hlt : n < g.2.length := by
      by_contra hge
      apply hbefore g.2.length (Nat.le_of_not_lt hge)
      rw [hat _ hlen', List.getElem?_eq_none (Nat.le_refl _)]
      rfl
    rw [hat n (by omega), List.getElem?_eq_getElem hlt] at hkey
    exact ⟨g, hg, hname, g.2[n], List.getElem_mem hlt, Value.string.inj hkey⟩
  · rintro ⟨g, hg, rfl, e, he, rfl⟩
    rcases hholds.list g hg with ⟨l, _, hrow, _⟩
    have hl : HasList env (listsSet env groups st) (ascii g.1) l := by
      refine ⟨st.sb.fresh, listsSet_config env groups st, ?_⟩
      unfold ModuleState.rawget
      rw [listsSet_tables_of_ne groups st (Nat.ne_of_gt h.config_lt)]
      exact hrow
    rcases hasList_listsSet h hholds hl with ⟨g', hg', hname, _, hat⟩
    have hsame : g' = g :=
      List.inj_on_of_nodup_map hnodup hg' hg hname
    rw [hsame] at hat
    rcases List.getElem_of_mem he with ⟨n, hn, hne⟩
    have hlen' := hlen g hg
    have hentry : forall i, (hi : i < g.2.length) ->
        listAt (listsSet env groups st) l i = luaString g.2[i] := by
      intro i hi
      rw [hat i (by omega), List.getElem?_eq_getElem hi]
      rfl
    refine ⟨l, n, hl, ?_, ?_⟩
    · intro i hi
      rw [hentry i (by omega)]
      exact Value.noConfusion
    · rw [hentry n hn, hne]
      rfl

/-- The table of the disabled modules of an analysis plugin. -/
def modulesDisabled (env : ModuleEnv) (st : ModuleState) : ModuleState :=
  ((st.addTable.assign st.sb.fresh (luaString "io")
    (Value.boolean true)).assign st.sb.fresh (luaString "coroutine")
      (Value.boolean true)).assign env.config (luaString "disable_modules")
        (Value.table st.sb.fresh)

def restrictedStart (env : ModuleEnv) (type : PluginType)
    (st : ModuleState) : ModuleState :=
  match type with
  | PluginType.input | PluginType.output => st
  | PluginType.analysis => modulesDisabled env st

theorem spends_disableModules (h : Unrestricted env st) (type : PluginType) :
    exists c, Spends (disableModules env type) st c ()
      (restrictedStart env type st) := by
  have hanalysis : exists c, Spends
      (disableModules env PluginType.analysis) st c ()
      (modulesDisabled env st) := by
    have hnew : Spends luaNewtable st 1 st.sb.fresh st.addTable :=
      Spends.newtable
    have hbare : st.addTable.metatable st.sb.fresh = none :=
      h.fresh_bare _ (Nat.le_refl _)
    rcases spends_setfield env (ascii "io") (Value.boolean true)
      (metamethod_of_bare hbare "__newindex") with ⟨c, hio⟩
    have hbare' : (st.addTable.assign st.sb.fresh (luaString "io")
        (Value.boolean true)).metatable st.sb.fresh = none := by
      rw [assign_metatable]
      exact hbare
    rcases spends_setfield env (ascii "coroutine") (Value.boolean true)
      (metamethod_of_bare hbare' "__newindex") with ⟨d, hcoroutine⟩
    have hconfig : ((st.addTable.assign st.sb.fresh (luaString "io")
        (Value.boolean true)).assign st.sb.fresh (luaString "coroutine")
          (Value.boolean true)).metatable env.config = none := by
      rw [assign_metatable, assign_metatable]
      exact h.config_bare
    rcases spends_setfield env (ascii "disable_modules")
      (Value.table st.sb.fresh) (metamethod_of_bare hconfig "__newindex")
      with ⟨k, hset⟩
    exact ⟨1 + (c + (d + k)), Spends.bind hnew
      (Spends.bind hio (Spends.bind hcoroutine hset))⟩
  cases type with
  | input => exact ⟨0, Spends.pure ()⟩
  | analysis => exact hanalysis
  | output => exact ⟨0, Spends.pure ()⟩

theorem restrictedStart_unrestricted (h : Unrestricted env st)
    (type : PluginType) : Unrestricted env (restrictedStart env type st) := by
  have hanalysis : Unrestricted env (modulesDisabled env st) := by
    have hmeta : (modulesDisabled env st).metatable = st.metatable := by
      unfold modulesDisabled
      rw [assign_metatable, assign_metatable, assign_metatable]
      rfl
    have hfresh : (modulesDisabled env st).sb.fresh = st.sb.fresh + 1 := by
      unfold modulesDisabled
      rw [assign_fresh, assign_fresh, assign_fresh]
      rfl
    constructor
    · rw [hfresh]
      exact Nat.lt_succ_of_lt h.config_lt
    · rw [hmeta]
      exact h.config_bare
    · rw [hfresh, hmeta]
      exact fun u hu => h.fresh_bare u (Nat.le_of_succ_le hu)
  cases type with
  | input => exact h
  | analysis => exact hanalysis
  | output => exact h

theorem isDisabled_listsSet (h : Unrestricted env st)
    (groups : List (String × List String))
    (hlen : forall g, g ∈ groups -> (g.2.length : Int) < intMax)
    (hnodup : (groups.map (fun g => ascii g.1)).Nodup) (name : List UInt8) :
    IsDisabled env (listsSet env groups (modulesDisabled env st)) name <->
      name = ascii "io" ∨ name = ascii "coroutine" := by
  have hstart := restrictedStart_unrestricted h PluginType.analysis
  have hne : st.sb.fresh ≠ env.config := Nat.ne_of_gt h.config_lt
  have hfresh : (modulesDisabled env st).sb.fresh = st.sb.fresh + 1 := by
    unfold modulesDisabled
    rw [assign_fresh, assign_fresh, assign_fresh]
    rfl
  have hholds := groupedAll_holds (modulesDisabled env st).addTable
    (Nat.lt_succ_self _) groups
    (fun g hg => Int.le_of_lt (hlen g hg)) hnodup
  have hframe : forall u, u <= st.sb.fresh ->
      (groupedAll (modulesDisabled env st).sb.fresh groups
        (modulesDisabled env st).addTable).tables u =
          (modulesDisabled env st).tables u := by
    intro u hu
    have hlt : u < (modulesDisabled env st).addTable.sb.fresh := by
      change u < (modulesDisabled env st).sb.fresh + 1
      omega
    rw [hholds.frame u hlt (by omega), addTable_tables_of_ne (by omega)]
  have hstring : forall s, (luaString s).type ≠ LuaType.number :=
    fun _ => LuaType.noConfusion
  have hkey : forall s, IsTableKey (luaString s) :=
    fun s => isTableKey_string _
  have hequal : forall s k, rawequal (luaString s) (Value.string k) = true <->
      k = ascii s := by
    intro s k
    rw [rawequal_of_ne_number (hstring s)]
    change Value.string (ascii s) = Value.string k <-> _
    rw [Value.string.injEq, eq_comm]
  have hdisable : (listsSet env groups (modulesDisabled env st)).rawget
      env.config (luaString "disable_modules") =
        Value.table st.sb.fresh := by
    have hother : ¬ rawequal (luaString "remove_entries")
        (luaString "disable_modules") = true := by decide
    unfold listsSet
    rw [assign_rawget _ _ _ (hkey _), if_neg hother]
    unfold ModuleState.rawget
    rw [hframe _ (Nat.le_of_lt h.config_lt)]
    change (modulesDisabled env st).rawget env.config _ = _
    unfold modulesDisabled
    rw [assign_rawget _ _ _ (hkey _)]
    exact if_pos (hkey _).2
  have hentry : (listsSet env groups (modulesDisabled env st)).rawget
      st.sb.fresh (Value.string name) =
        if name = ascii "coroutine" then Value.boolean true
        else if name = ascii "io" then Value.boolean true
        else Value.nil := by
    unfold listsSet
    rw [assign_rawget_of_ne _ _ _ _ hne]
    unfold ModuleState.rawget
    rw [hframe _ (Nat.le_refl _)]
    change (modulesDisabled env st).rawget st.sb.fresh _ = _
    have hempty : st.addTable.rawget st.sb.fresh (Value.string name) =
        Value.nil := by
      unfold ModuleState.rawget
      rw [addTable_tables, if_pos rfl]
      rfl
    unfold modulesDisabled
    rw [assign_rawget_of_ne _ _ _ _ hne, assign_rawget _ _ _ (hkey _),
      assign_rawget _ _ _ (hkey _), hempty]
    simp only [hequal]
  constructor
  · rintro ⟨d, hd, hvalue⟩
    cases hdisable.symm.trans hd
    rw [hentry] at hvalue
    by_cases hcoroutine : name = ascii "coroutine"
    · exact Or.inr hcoroutine
    · rw [if_neg hcoroutine] at hvalue
      by_cases hio : name = ascii "io"
      · exact Or.inl hio
      · rw [if_neg hio] at hvalue
        exact absurd rfl hvalue
  · intro hname
    refine ⟨st.sb.fresh, hdisable, ?_⟩
    rw [hentry]
    rcases hname with hio | hcoroutine
    · rw [if_pos hio]
      split <;> exact Value.noConfusion
    · rw [if_pos hcoroutine]
      exact Value.noConfusion

/-- The state with the restrictions of the type. -/
def restrictedState (env : ModuleEnv) (type : PluginType)
    (st : ModuleState) : ModuleState :=
  listsSet env (removedEntries type) (restrictedStart env type st)

theorem removedEntries_short (type : PluginType) :
    forall g, g ∈ removedEntries type -> (g.2.length : Int) < intMax := by
  cases type <;> decide

theorem removedEntries_nodup (type : PluginType) :
    ((removedEntries type).map (fun g => ascii g.1)).Nodup := by
  cases type <;> decide

theorem spends_setRestrictions (h : Unrestricted env st)
    (type : PluginType) :
    exists c, Spends (setRestrictions env type) st c ()
      (restrictedState env type st) := by
  rcases spends_disableModules h type with ⟨c, hdisable⟩
  rcases spends_lists (restrictedStart_unrestricted h type)
    (removedEntries type) with ⟨d, hlists⟩
  rw [← restrictions_eq] at hlists
  exact ⟨c + d, Spends.bind hdisable hlists⟩

theorem isRemoved_restrictedState (h : Unrestricted env st)
    (type : PluginType) (name key : List UInt8) :
    IsRemoved env (restrictedState env type st) name key <->
      exists g, g ∈ removedEntries type ∧ ascii g.1 = name ∧
        exists e, e ∈ g.2 ∧ ascii e = key :=
  isRemoved_listsSet (restrictedStart_unrestricted h type)
    (removedEntries_short type) (removedEntries_nodup type) name key

theorem isDisabled_restrictedState (h : Unrestricted env st)
    (name : List UInt8) :
    IsDisabled env (restrictedState env PluginType.analysis st) name <->
      name = ascii "io" ∨ name = ascii "coroutine" :=
  isDisabled_listsSet h _ (removedEntries_short PluginType.analysis)
    (removedEntries_nodup PluginType.analysis) name

/-- Whatever the configuration says, the restrictions of a plugin are those of
its type: the entries of its array are removed, and no others, and an analysis
plugin has neither `io` nor `coroutine`. -/
theorem setRestrictions_restricts (h : Unrestricted env st)
    (type : PluginType) :
    exists c st', Spends (setRestrictions env type) st c () st' ∧
      (forall name key, IsRemoved env st' name key <->
        exists g, g ∈ removedEntries type ∧ ascii g.1 = name ∧
          exists e, e ∈ g.2 ∧ ascii e = key) ∧
      (type = PluginType.analysis -> forall name,
        IsDisabled env st' name <->
          name = ascii "io" ∨ name = ascii "coroutine") := by
  rcases spends_setRestrictions h type with ⟨c, hspends⟩
  refine ⟨c, restrictedState env type st, hspends,
    isRemoved_restrictedState h type, ?_⟩
  rintro rfl
  exact isDisabled_restrictedState h

/-- What the type of a plugin restricts. -/
def Listed (type : PluginType) (name key : List UInt8) : Prop :=
  type = PluginType.analysis ∧
      (name = ascii "io" ∨ name = ascii "coroutine") ∨
    exists g, g ∈ removedEntries type ∧ ascii g.1 = name ∧
      exists e, e ∈ g.2 ∧ ascii e = key

end

/-!
A sandbox whose configuration is empty.
-/

def emptyModuleEnv : ModuleEnv where
  globals := 0
  loaded := 1
  config := 2
  sentinel := 0
  preloaded := fun _ => none
  call := fun _ _ st => (CallResult.returned [], st)

def emptyModules : ModuleState where
  sb := ⟨3, fun _ => RawTable.empty⟩
  metatable := fun _ => none
  given := []
  room := 0

theorem setRestrictions_restricts_empty :
    exists c st', Spends
        (setRestrictions emptyModuleEnv PluginType.analysis) emptyModules c ()
        st' ∧
      (forall name key, IsRemoved emptyModuleEnv st' name key <->
        exists g, g ∈ removedEntries PluginType.analysis ∧ ascii g.1 = name ∧
          exists e, e ∈ g.2 ∧ ascii e = key) ∧
      (PluginType.analysis = PluginType.analysis -> forall name,
        IsDisabled emptyModuleEnv st' name <->
          name = ascii "io" ∨ name = ascii "coroutine") :=
  setRestrictions_restricts ⟨by decide, rfl, fun _ _ => rfl⟩
    PluginType.analysis

end Heka
end LuaSandbox
