import LuaSandbox.Core.Modules

/-!
# What loading a module takes

Where no metamethod is in the way, the calls of the loader do one thing to the
state and need a number of allocations; with room for fewer they run out of
memory.
-/

namespace LuaSandbox
namespace Core

open Foundation Lua

/-!
## Calls that need room
-/

/-- The call leads from `st` to `st'` with `c` allocations. -/
structure Spends {α : Type} (x : ModuleCall α) (st : ModuleState) (c : Nat)
    (a : α) (st' : ModuleState) : Prop where
  done : forall n, c <= n ->
    x.run (st.setRoom n) = (Except.ok a, st'.setRoom (n - c))
  refused : forall n, n < c -> exists st'',
    x.run (st.setRoom n) = (Except.error outOfMemory, st'')

namespace Spends

variable {α β : Type} {st st' st'' : ModuleState}

theorem pure (a : α) : Spends (Pure.pure a : ModuleCall α) st 0 a st where
  done := fun _ _ => rfl
  refused := fun _ hn => absurd hn (Nat.not_lt_zero _)

theorem bind {x : ModuleCall α} {f : α -> ModuleCall β} {c d : Nat} {a : α}
    {b : β} (hx : Spends x st c a st') (hf : Spends (f a) st' d b st'') :
    Spends (x >>= f) st (c + d) b st'' where
  done := by
    intro n hn
    rw [Computation.run_bind_ok (hx.done n (by omega)),
      hf.done (n - c) (by omega), Nat.sub_sub]
  refused := by
    intro n hn
    by_cases hc : n < c
    · rcases hx.refused n hc with ⟨s, hs⟩
      exact ⟨s, Computation.run_bind_error hs⟩
    · rcases hf.refused (n - c) (by omega) with ⟨s, hs⟩
      refine ⟨s, ?_⟩
      rw [Computation.run_bind_ok (hx.done n (by omega)), hs]

theorem look {f : ModuleState -> α}
    (hf : forall n, f (st.setRoom n) = f st) :
    Spends (Core.look f) st 0 (f st) st where
  done := by
    intro n _
    change (Except.ok (f (st.setRoom n)), st.setRoom n) = _
    rw [hf n]
    rfl
  refused := fun _ hn => absurd hn (Nat.not_lt_zero _)

theorem change {f : ModuleState -> ModuleState}
    (hf : forall n, f (st.setRoom n) = (f st).setRoom n) :
    Spends (Core.change f) st 0 () (f st) where
  done := by
    intro n _
    change (Except.ok (), f (st.setRoom n)) = _
    rw [hf n]
    rfl
  refused := fun _ hn => absurd hn (Nat.not_lt_zero _)

theorem allocate : Spends Core.allocate st 1 () st where
  done := by
    intro n hn
    cases n with
    | zero => exact absurd hn (Nat.not_succ_le_zero 0)
    | succ n => rfl
  refused := by
    intro n hn
    rcases Nat.lt_one_iff.mp hn with rfl
    exact ⟨_, rfl⟩

/-- The call depends on the state only up to what it does. -/
theorem ofRun {x : ModuleCall α} {a : α} (h : forall n,
    x.run (st.setRoom n) = (Except.ok a, st'.setRoom n)) :
    Spends x st 0 a st' where
  done := fun n _ => h n
  refused := fun _ hn => absurd hn (Nat.not_lt_zero _)

theorem congr {x y : ModuleCall α} {c : Nat} {a : α} (hx : Spends x st c a st')
    (h : forall n, y.run (st.setRoom n) = x.run (st.setRoom n)) :
    Spends y st c a st' where
  done := by
    intro n hn
    rw [h n]
    exact hx.done n hn
  refused := by
    intro n hn
    rw [h n]
    exact hx.refused n hn

theorem newtable : Spends luaNewtable st 1 st.sb.fresh st.addTable := by
  have hlook : Spends (Core.look (fun s => s.sb.fresh)) st 0 st.sb.fresh st :=
    Spends.look (fun _ => rfl)
  have hadd : Spends (Core.change ModuleState.addTable) st 0 ()
      st.addTable := Spends.change (fun _ => rfl)
  change Spends luaNewtable st (1 + (0 + (0 + 0))) _ _
  unfold luaNewtable
  exact Spends.bind allocate
    (Spends.bind hlook (Spends.bind hadd (Spends.pure _)))

/-- What a call leaves that does not run out of memory. -/
theorem of_ok {x : ModuleCall α} {c : Nat} {a b : α} {s : ModuleState}
    (h : Spends x st c a st') (hrun : x.run st = (Except.ok b, s)) :
    b = a ∧ exists n, s = st'.setRoom n := by
  by_cases hc : c <= st.room
  · have hdone := h.done st.room hc
    cases hdone.symm.trans hrun
    exact ⟨rfl, _, rfl⟩
  · rcases h.refused st.room (by omega) with ⟨s', hs'⟩
    cases hs'.symm.trans hrun

theorem of_error {x : ModuleCall α} {c : Nat} {a : α} {s : ModuleState}
    {e : ModuleStop} (h : Spends x st c a st')
    (hrun : x.run st = (Except.error e, s)) : e = outOfMemory := by
  by_cases hc : c <= st.room
  · cases (h.done st.room hc).symm.trans hrun
  · rcases h.refused st.room (by omega) with ⟨s', hs'⟩
    cases hs'.symm.trans hrun
    rfl

end Spends

/-!
## Accesses without metamethods
-/

section

variable {env : ModuleEnv} {st : ModuleState} {t : Nat}

theorem assign_setRoom (st : ModuleState) (n t : Nat) (key value : Value) :
    (st.setRoom n).assign t key value = (st.assign t key value).setRoom n := by
  unfold ModuleState.assign
  split <;> rfl

theorem spends_getfield (name : List UInt8)
    (h : st.metamethod (Value.table t) "__index" = Value.nil) :
    Spends (getfield env (Value.table t) name) st 0
      (st.rawget t (Value.string name)) st := by
  apply Spends.ofRun
  intro n
  unfold getfield maxTagLoop getEntry
  rw [Computation.run_ofFun]
  have hsame : (st.setRoom n).metamethod (Value.table t) "__index" =
      Value.nil := h
  by_cases hres : st.rawget t (Value.string name) = Value.nil
  · have hres' : (st.setRoom n).rawget t (Value.string name) = Value.nil :=
      hres
    simp only [hsame, hres, hres', ne_eq, not_true_eq_false, if_false, if_true]
    rfl
  · have hres' : ¬ (st.setRoom n).rawget t (Value.string name) = Value.nil :=
      hres
    simp only [hres', ne_eq, not_false_eq_true, if_true]
    rfl

theorem spends_findEntry {key : Value} (hkey : IsTableKey key) :
    Spends (findEntry (Value.table t) key) st
      (if st.rawget t key = Value.nil then 1 else 0) () st := by
  have hrun : forall n, (findEntry (Value.table t) key).run (st.setRoom n) =
      if st.rawget t key = Value.nil then allocate.run (st.setRoom n)
      else (Except.ok (), st.setRoom n) := by
    intro n
    unfold findEntry
    rw [Computation.run_ofFun]
    have hself : ¬ rawequal key key = false := by
      rw [hkey.2]
      exact Bool.noConfusion
    simp only [if_neg hkey.1, if_neg hself]
    rfl
  by_cases hnew : st.rawget t key = Value.nil
  · rw [if_pos hnew]
    apply Spends.allocate.congr
    intro n
    rw [hrun n, if_pos hnew]
  · rw [if_neg hnew]
    apply (Spends.pure ()).congr
    intro n
    rw [hrun n, if_neg hnew]
    rfl

theorem spends_setEntry (env : ModuleEnv) {key : Value} (value : Value)
    (hkey : IsTableKey key)
    (h : st.metamethod (Value.table t) "__newindex" = Value.nil) :
    Spends (setEntry env key value maxTagLoop (Value.table t)) st
      (if st.rawget t key = Value.nil then 1 else 0) ()
      (st.assign t key value) := by
  have hset : Spends (findEntry (Value.table t) key) st
      (if st.rawget t key = Value.nil then 1 else 0) () st :=
    spends_findEntry hkey
  change Spends _ st ((if st.rawget t key = Value.nil then 1 else 0) + 0) _ _
  unfold maxTagLoop setEntry
  apply Spends.bind hset
  apply Spends.ofRun
  intro n
  rw [Computation.run_ofFun]
  have hsame : (st.setRoom n).metamethod (Value.table t) "__newindex" =
      Value.nil := h
  simp only [hsame, or_true, if_true]
  rw [assign_setRoom]

theorem spends_setfield (env : ModuleEnv) (name : List UInt8) (value : Value)
    (h : st.metamethod (Value.table t) "__newindex" = Value.nil) :
    exists c, Spends (setfield env (Value.table t) name value) st c ()
      (st.assign t (Value.string name) value) :=
  ⟨_, spends_setEntry env value (isTableKey_string name) h⟩

theorem spends_rawseti (i : Int) (value : Value) :
    exists c, Spends (rawseti t i value) st c ()
      (st.assign t (integer (toInt i)) value) := by
  have hassign : Spends
      (change (fun s => s.assign t (integer (toInt i)) value)) st 0 ()
      (st.assign t (integer (toInt i)) value) :=
    Spends.change (fun n => assign_setRoom st n t _ value)
  exact ⟨_, (spends_findEntry (isTableKey_integer i)).bind hassign⟩

end

/-!
## What an assignment changes
-/

section

variable (st : ModuleState) (t : Nat) (key value : Value)

@[simp] theorem assign_metatable :
    (st.assign t key value).metatable = st.metatable := by
  unfold ModuleState.assign
  split <;> rfl

@[simp] theorem assign_fresh :
    (st.assign t key value).sb.fresh = st.sb.fresh := by
  unfold ModuleState.assign
  split <;> rfl

@[simp] theorem assign_given :
    (st.assign t key value).given = st.given := by
  unfold ModuleState.assign
  split <;> rfl

theorem assign_tables_of_ne {u : Nat} (h : u ≠ t) :
    (st.assign t key value).tables u = st.tables u := by
  unfold ModuleState.assign
  split
  · exact if_neg h
  · rfl

theorem assign_rawget_of_ne {u : Nat} (h : u ≠ t) (k : Value) :
    (st.assign t key value).rawget u k = st.rawget u k := by
  unfold ModuleState.rawget
  rw [assign_tables_of_ne st t key value h]

theorem assign_rawget {key : Value} (hkey : IsTableKey key) (k : Value) :
    (st.assign t key value).rawget t k =
      if rawequal key k then value else st.rawget t k := by
  unfold ModuleState.assign
  rw [dif_pos hkey]
  change RawTable.rawget (if t = t then _ else _) k = _
  rw [if_pos rfl, RawTable.rawget_rawset]
  rfl

theorem metamethod_of_bare {st : ModuleState} {t : Nat}
    (h : st.metatable t = none) (event : String) :
    st.metamethod (Value.table t) event = Value.nil := by
  unfold ModuleState.metamethod
  simp only [h]

theorem metamethod_of_some {st : ModuleState} {t m : Nat}
    (h : st.metatable t = some m) (event : String) :
    st.metamethod (Value.table t) event = st.rawget m (luaString event) := by
  unfold ModuleState.metamethod
  simp only [h]

theorem assign_metamethod_of_ne {t u : Nat} {event : String}
    (h : forall m, st.metatable u = some m -> m ≠ t) :
    (st.assign t key value).metamethod (Value.table u) event =
      st.metamethod (Value.table u) event := by
  have hmetatable : (st.assign t key value).metatable u = st.metatable u := by
    rw [assign_metatable]
  cases hm : st.metatable u with
  | none => rw [metamethod_of_bare hm, metamethod_of_bare (hmetatable.trans hm)]
  | some m =>
      rw [metamethod_of_some hm, metamethod_of_some (hmetatable.trans hm)]
      exact assign_rawget_of_ne st t key value (h m hm) _

end

/-- The entries of a table behind an assignment. -/
theorem mem_rawassign_cases {entries : List (Value × Value)}
    {key value : Value} (hkeys : KeysDistinct entries)
    (hself : rawequal key key = true) {e : Value × Value}
    (h : e ∈ rawassign entries key value) :
    (e.2 = value ∧ rawequal e.1 key = true) ∧
        (e.1 = key ∨ exists e', e' ∈ entries ∧ e'.1 = e.1) ∨
      e ∈ entries ∧ rawequal e.1 key = false := by
  induction entries with
  | nil =>
      rcases List.mem_singleton.mp h with rfl
      exact Or.inl ⟨⟨rfl, hself⟩, Or.inl rfl⟩
  | cons e' rest ih =>
      rcases e' with ⟨k', v'⟩
      rcases List.pairwise_cons.mp hkeys with ⟨hfirst, hrest⟩
      unfold rawassign at h
      split at h
      · rename_i hsame
        rcases List.mem_cons.mp h with rfl | hmem
        · exact Or.inl ⟨⟨rfl, hsame⟩,
            Or.inr ⟨(k', v'), List.mem_cons_self, rfl⟩⟩
        · refine Or.inr ⟨List.mem_cons_of_mem _ hmem, ?_⟩
          have hother := hfirst e hmem
          rw [Bool.eq_false_iff] at hother ⊢
          intro hkey
          rw [rawequal_comm] at hkey
          exact hother (rawequal_trans hsame hkey)
      · rename_i hother
        rcases List.mem_cons.mp h with rfl | hmem
        · exact Or.inr ⟨List.mem_cons_self, Bool.eq_false_iff.mpr hother⟩
        · rcases ih hrest hmem with ⟨hvalue, hkey | ⟨e', he', hk⟩⟩ |
            ⟨hmem', hne⟩
          · exact Or.inl ⟨hvalue, Or.inl hkey⟩
          · exact Or.inl ⟨hvalue, Or.inr ⟨e', List.mem_cons_of_mem _ he', hk⟩⟩
          · exact Or.inr ⟨List.mem_cons_of_mem _ hmem', hne⟩

theorem mem_assign {st : ModuleState} {t : Nat} {key value : Value}
    {e : Value × Value} (hkey : IsTableKey key)
    (h : e ∈ ((st.assign t key value).tables t).entries) :
    (e.2 = value ∧ rawequal e.1 key = true) ∧
        (e.1 = key ∨ exists e', e' ∈ (st.tables t).entries ∧ e'.1 = e.1) ∨
      e ∈ (st.tables t).entries ∧ rawequal e.1 key = false := by
  unfold ModuleState.assign at h
  rw [dif_pos hkey] at h
  change e ∈ RawTable.entries (if t = t then _ else _) at h
  rw [if_pos rfl] at h
  exact mem_rawassign_cases (st.tables t).keys_distinct hkey.2 h

end Core
end LuaSandbox
