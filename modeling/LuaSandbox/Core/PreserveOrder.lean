import LuaSandbox.Core.PreserveTrace

/-!
# The order of the lines

Every line of a state file stands behind those that it depends on, and every
entry that is preserved has one line.
-/

namespace LuaSandbox
namespace Core

open Foundation Lua

/-!
## Walks that are in order
-/

/-- A path leads to a table: it is that of the globals, or that of the entry
which opened the table. -/
def Denotes (g : LuaGlobals) (trace : List Visit) (path : List Value)
    (t : Nat) : Prop :=
  (path = [] ∧ t = g.globals) ∨
    exists s, s ∈ trace ∧ s.Opens (Value.table t) ∧ s.name = path

/-- A written entry behind others: it is an entry of the table that its path
leads to, no entry has been written for its key, and its object is new or has
the path of the entry that opened it. -/
structure InOrder (g : LuaGlobals) (before : List Visit) (s : Visit) :
    Prop where
  parent : Denotes g before s.path s.parent
  entry : (s.key, s.value) ∈ g.entriesOf s.parent
  kept : g.ignoreValueType s.value = false
  key : IsScalar s.key
  once : forall s', s' ∈ before -> s'.parent = s.parent ->
    rawequal s'.key s.key = false
  object : IsObject s.value -> s.seen = findVisit before s.value
  scalar : ¬ IsObject s.value -> s.seen = none

inductive Ordered (g : LuaGlobals) : List Visit -> Prop where
  | nil : Ordered g []
  | snoc {trace : List Visit} {s : Visit} (h : Ordered g trace)
      (hs : InOrder g trace s) : Ordered g (trace ++ [s])

/-- The entries of a table are written. -/
def WritesAll (g : LuaGlobals) (trace : List Visit) (t : Nat) : Prop :=
  forall e, e ∈ g.entriesOf t -> g.ignoreValueType e.2 = false ->
    exists s, s ∈ trace ∧ s.parent = t ∧ s.key = e.1 ∧ s.value = e.2

/-- The tables whose entries are written: the globals, and the tables that are
opened and are no empty array. -/
def Expanded (g : LuaGlobals) (trace : List Visit) (t : Nat) : Prop :=
  t = g.globals ∨
    (g.isEmptyArray t = false ∧
      exists s, s ∈ trace ∧ s.Opens (Value.table t))

/-- A walk over all that is preserved. -/
structure IsWalk (g : LuaGlobals) (trace : List Visit) : Prop where
  ordered : Ordered g trace
  expanded : forall s, s ∈ trace -> Expanded g trace s.parent
  complete : forall t, Expanded g trace t -> WritesAll g trace t

section

variable {g : LuaGlobals} {trace : List Visit}

theorem keysDistinct_live {entries : List (Value × Value)}
    (h : KeysDistinct entries) : KeysDistinct (live entries) :=
  List.Pairwise.sublist List.filter_sublist h

theorem keysDistinct_entriesOf (g : LuaGlobals) (t : Nat) :
    KeysDistinct (g.entriesOf t) := by
  unfold LuaGlobals.entriesOf
  split
  · exact keysDistinct_live (RawTable.keys_distinct _)
  · exact keysDistinct_live (RawTable.keys_distinct _)

theorem findVisit_none {v : Value} :
    findVisit trace v = none <->
      forall s, s ∈ trace -> ¬ s.Opens v := by
  unfold findVisit
  rw [Option.map_eq_none_iff, List.find?_eq_none]
  constructor
  · intro h s hs hopens
    exact h s hs (decide_eq_true hopens)
  · intro h s hs hopens
    exact h s hs (of_decide_eq_true hopens)

theorem findVisit_some {v : Value} {path : List Value}
    (h : findVisit trace v = some path) :
    exists s, s ∈ trace ∧ s.Opens v ∧ s.name = path := by
  unfold findVisit at h
  rcases Option.map_eq_some_iff.mp h with ⟨s, hfind, hname⟩
  have hopens := @List.find?_some Visit (fun s => decide (s.Opens v)) s
    trace hfind
  exact ⟨s, List.mem_of_find?_eq_some hfind, of_decide_eq_true hopens, hname⟩

theorem Denotes.mono {trace' : List Visit} {path : List Value} {t : Nat}
    (h : Denotes g trace path t)
    (hsub : forall s, s ∈ trace -> s ∈ trace') :
    Denotes g trace' path t := by
  rcases h with h | ⟨s, hs, hopens, hname⟩
  · exact Or.inl h
  · exact Or.inr ⟨s, hsub s hs, hopens, hname⟩

theorem Ordered.split {before after : List Visit} {s : Visit}
    (h : Ordered g (before ++ s :: after)) : InOrder g before s := by
  induction after using List.reverseRecOn with
  | nil =>
      generalize htrace : before ++ [s] = trace at h
      cases h with
      | nil => simp at htrace
      | snoc h hs =>
          rcases List.append_inj' htrace rfl with ⟨rfl, hlast⟩
          cases hlast
          exact hs
  | append_singleton after s' ih =>
      generalize htrace : before ++ s :: (after ++ [s']) = trace at h
      cases h with
      | nil => simp at htrace
      | snoc h hs =>
          rw [← List.cons_append, ← List.append_assoc] at htrace
          rcases List.append_inj' htrace rfl with ⟨rfl, _⟩
          exact ih h

theorem Ordered.inOrder {s : Visit} (h : Ordered g trace) (hs : s ∈ trace) :
    exists before after, trace = before ++ s :: after ∧
      InOrder g before s := by
  rcases List.append_of_mem hs with ⟨before, after, rfl⟩
  exact ⟨before, after, rfl, h.split⟩

theorem ne_globals {t : Nat}
    (h : g.ignoreValueType (Value.table t) = false) : t ≠ g.globals := by
  rintro rfl
  change (g.hasMetatable g.globals || decide (g.globals = g.globals)) =
    false at h
  rw [decide_eq_true rfl, Bool.or_true] at h
  cases h

/-- A table is opened behind all entries that do not open it. -/
theorem Ordered.opens_new {before new : List Visit} {s : Visit} {t : Nat}
    (h : Ordered g (before ++ new)) (hs : s ∈ new)
    (hopens : s.Opens (Value.table t)) :
    t ≠ g.globals ∧ forall s', s' ∈ before -> ¬ s'.Opens (Value.table t) := by
  rcases List.append_of_mem hs with ⟨first, last, rfl⟩
  rw [← List.append_assoc] at h
  have hs := h.split
  have hfind := hs.object (by rw [hopens.1]; exact Or.inl rfl)
  rw [hopens.1, hopens.2] at hfind
  constructor
  · have hkept := hs.kept
    rw [hopens.1] at hkept
    exact ne_globals hkept
  · intro s' hs'
    exact findVisit_none.mp hfind.symm s' (List.mem_append_left first hs')

/-- The tables of written entries are the globals and tables that are
opened. -/
theorem Ordered.parent_cases {s : Visit} (h : Ordered g trace)
    (hs : s ∈ trace) : s.parent = g.globals ∨
      exists s', s' ∈ trace ∧ s'.Opens (Value.table s.parent) := by
  rcases h.inOrder hs with ⟨before, after, rfl, hin⟩
  rcases hin.parent with ⟨_, hglobals⟩ | ⟨s', hs', hopens, _⟩
  · exact Or.inl hglobals
  · exact Or.inr ⟨s', List.mem_append_left _ hs', hopens⟩

/-- An entry that leads to a table opens it or finds it opened. -/
theorem Ordered.opened {s : Visit} {u : Nat} (h : Ordered g trace)
    (hs : s ∈ trace) (hu : s.value = Value.table u) :
    exists s', s' ∈ trace ∧ s'.Opens (Value.table u) := by
  rcases h.inOrder hs with ⟨before, after, rfl, hin⟩
  have hseen := hin.object (by rw [hu]; exact Or.inl rfl)
  rw [hu] at hseen
  cases hfind : findVisit before (Value.table u) with
  | none => exact ⟨s, hs, hu, hseen.trans hfind⟩
  | some path =>
      rcases findVisit_some hfind with ⟨s', hs', hopens, _⟩
      exact ⟨s', List.mem_append_left _ hs', hopens⟩

theorem not_isObject_of_scalar {v : Value} (h : IsScalar v) :
    ¬ IsObject v := by
  rintro (hv | hv) <;> rcases h with h | h | h <;> rw [hv] at h <;> cases h

theorem checkData_ok {slots : Nat} {v : Value}
    (h : checkData slots v = Except.ok ()) : IsScalar v := by
  cases v with
  | string s => exact Or.inl rfl
  | number d => exact Or.inr (Or.inl rfl)
  | boolean b => exact Or.inr (Or.inr rfl)
  | _ => cases h

/-!
## The step
-/

/-- All that a turn of the loop can do. -/
theorem visitEntry_cases {visit : Nat -> List Value -> List Visit ->
      Except PreserveStop (List Visit)} {slots t : Nat} {path : List Value}
    {e : Value × Value} {trace' : List Visit}
    (h : visitEntry g visit slots t path trace e = Except.ok trace') :
    (g.ignoreValueType e.2 = true ∧ trace' = trace) ∨
      (g.ignoreValueType e.2 = false ∧ IsScalar e.1 ∧ exists seen,
        (IsObject e.2 -> seen = findVisit trace e.2) ∧
        (¬ IsObject e.2 -> seen = none) ∧
        ((trace' = trace ++ [⟨t, path, e.1, e.2, seen⟩] ∧
            forall u, e.2 = Value.table u -> seen = none ->
              g.isEmptyArray u = true) ∨
          exists u, e.2 = Value.table u ∧ seen = none ∧
            g.isEmptyArray u = false ∧
            visit u (path ++ [e.1]) (trace ++ [⟨t, path, e.1, e.2, seen⟩]) =
              Except.ok trace')) := by
  rcases e with ⟨k, v⟩
  unfold visitEntry at h
  by_cases hignore : g.ignoreValueType v = true
  · rw [if_pos hignore] at h
    cases h
    exact Or.inl ⟨hignore, rfl⟩
  rw [if_neg hignore] at h
  rcases except_bind_ok.mp h with ⟨_, hkey, hrest⟩
  refine Or.inr ⟨Bool.eq_false_iff.mpr hignore, checkData_ok hkey, ?_⟩
  have hscalar : (do
        checkData slots v
        Except.ok (trace ++ [⟨t, path, k, v, none⟩])) = Except.ok trace' ->
      exists seen, (IsObject v -> seen = findVisit trace v) ∧
        (¬ IsObject v -> seen = none) ∧
        ((trace' = trace ++ [⟨t, path, k, v, seen⟩] ∧
            forall u, v = Value.table u -> seen = none ->
              g.isEmptyArray u = true) ∨
          exists u, v = Value.table u ∧ seen = none ∧
            g.isEmptyArray u = false ∧
            visit u (path ++ [k]) (trace ++ [⟨t, path, k, v, seen⟩]) =
              Except.ok trace') := by
    intro hrun
    rcases except_bind_ok.mp hrun with ⟨_, hvalue, hdone⟩
    cases hdone
    have hnot := not_isObject_of_scalar (checkData_ok hvalue)
    refine ⟨none, fun hobject => absurd hobject hnot, fun _ => rfl,
      Or.inl ⟨rfl, ?_⟩⟩
    rintro u rfl _
    exact absurd (Or.inl rfl) hnot
  cases v with
  | table u =>
      dsimp only at hrest
      cases hfind : findVisit trace (Value.table u) with
      | some q =>
          rw [hfind] at hrest
          cases hrest
          exact ⟨some q, fun _ => rfl, fun hnot => absurd (Or.inl rfl) hnot,
            Or.inl ⟨rfl, fun _ _ hnone => nomatch hnone⟩⟩
      | none =>
          rw [hfind] at hrest
          refine ⟨none, fun _ => rfl, fun _ => rfl, ?_⟩
          by_cases hempty : g.isEmptyArray u = true
          · rw [if_pos hempty] at hrest
            cases hrest
            refine Or.inl ⟨rfl, ?_⟩
            rintro u' hu' _
            cases hu'
            exact hempty
          · rw [if_neg hempty] at hrest
            exact Or.inr ⟨u, rfl, rfl, Bool.eq_false_iff.mpr hempty, hrest⟩
  | userdata u =>
      cases hrest
      exact ⟨_, fun _ => rfl, fun hnot => absurd (Or.inr rfl) hnot,
        Or.inl ⟨rfl, nofun⟩⟩
  | string x => exact hscalar hrest
  | number d => exact hscalar hrest
  | boolean b => exact hscalar hrest
  | _ => exact absurd rfl hignore

end

/-!
## The walk of a table
-/

/-- The loop over the table `t` has written its entries `done`: `new` are the
entries that it wrote. -/
structure Walking (g : LuaGlobals) (t : Nat) (trace : List Visit)
    (done : List (Value × Value)) (new : List Visit) : Prop where
  ordered : Ordered g (trace ++ new)
  entries : forall s, s ∈ new -> s.parent = t -> (s.key, s.value) ∈ done
  parents : forall s, s ∈ new -> s.parent = t ∨
    (g.isEmptyArray s.parent = false ∧
      exists s', s' ∈ new ∧ s'.Opens (Value.table s.parent))
  writes : forall e, e ∈ done -> g.ignoreValueType e.2 = false ->
    exists s, s ∈ new ∧ s.parent = t ∧ s.key = e.1 ∧ s.value = e.2
  complete : forall s u, s ∈ new -> s.Opens (Value.table u) ->
    g.isEmptyArray u = false -> WritesAll g new u

section

variable {g : LuaGlobals} {t : Nat} {trace new : List Visit}
  {done : List (Value × Value)} {e : Value × Value} {path : List Value}

theorem WritesAll.mono {new' : List Visit} (h : WritesAll g new t)
    (hsub : forall s, s ∈ new -> s ∈ new') : WritesAll g new' t := by
  intro e he hkept
  rcases h e he hkept with ⟨s, hs, hsame⟩
  exact ⟨s, hsub s hs, hsame⟩

theorem walking_nil (h : Ordered g trace) : Walking g t trace [] [] where
  ordered := by
    rw [List.append_nil]
    exact h
  entries := nofun
  parents := nofun
  writes := nofun
  complete := nofun

/-- An entry is passed over. -/
theorem Walking.skip (h : Walking g t trace done new)
    (hignore : g.ignoreValueType e.2 = true) :
    Walking g t trace (done ++ [e]) new where
  ordered := h.ordered
  entries := fun s hs hparent =>
    List.mem_append_left _ (h.entries s hs hparent)
  parents := h.parents
  writes := by
    intro e' he' hkept
    rcases List.mem_append.mp he' with hdone | hlast
    · exact h.writes e' hdone hkept
    · rw [List.mem_singleton.mp hlast, hignore] at hkept
      cases hkept
  complete := h.complete

/-- The entry that is written next is in order. -/
theorem Walking.inOrder {rest : List (Value × Value)}
    {seen : Option (List Value)} (h : Walking g t trace done new)
    (hpath : Denotes g trace path t)
    (hfirst : forall s, s ∈ trace -> s.parent ≠ t)
    (hentries : g.entriesOf t = done ++ e :: rest)
    (hkept : g.ignoreValueType e.2 = false) (hkey : IsScalar e.1)
    (hobject : IsObject e.2 -> seen = findVisit (trace ++ new) e.2)
    (hscalar : ¬ IsObject e.2 -> seen = none) :
    InOrder g (trace ++ new) ⟨t, path, e.1, e.2, seen⟩ where
  parent := hpath.mono (fun s hs => List.mem_append_left _ hs)
  entry := by
    change e ∈ g.entriesOf t
    rw [hentries]
    exact List.mem_append_right _ List.mem_cons_self
  kept := hkept
  key := hkey
  once := by
    intro s hs hparent
    rcases List.mem_append.mp hs with hold | hnew
    · exact absurd hparent (hfirst s hold)
    · have hdistinct := keysDistinct_entriesOf g t
      rw [hentries] at hdistinct
      exact (List.pairwise_append.mp hdistinct).2.2 _
        (h.entries s hnew hparent) e List.mem_cons_self
  object := hobject
  scalar := hscalar

/-- An entry is written that leads into no table. -/
theorem Walking.write {s : Visit} (h : Walking g t trace done new)
    (hs : InOrder g (trace ++ new) s) (hparent : s.parent = t)
    (he : (s.key, s.value) = e)
    (hempty : forall u, s.Opens (Value.table u) ->
      g.isEmptyArray u = true) :
    Walking g t trace (done ++ [e]) (new ++ [s]) where
  ordered := by
    rw [← List.append_assoc]
    exact Ordered.snoc h.ordered hs
  entries := by
    intro s' hs' hparent'
    rcases List.mem_append.mp hs' with hnew | hlast
    · exact List.mem_append_left _ (h.entries s' hnew hparent')
    · rw [List.mem_singleton.mp hlast, he]
      exact List.mem_append_right _ List.mem_cons_self
  parents := by
    intro s' hs'
    rcases List.mem_append.mp hs' with hnew | hlast
    · rcases h.parents s' hnew with htop | ⟨hfull, s'', hs'', hopens⟩
      · exact Or.inl htop
      · exact Or.inr ⟨hfull, s'', List.mem_append_left _ hs'', hopens⟩
    · rw [List.mem_singleton.mp hlast]
      exact Or.inl hparent
  writes := by
    intro e' he' hkept
    rcases List.mem_append.mp he' with hdone | hlast
    · rcases h.writes e' hdone hkept with ⟨s', hs', hsame⟩
      exact ⟨s', List.mem_append_left _ hs', hsame⟩
    · rw [List.mem_singleton.mp hlast, ← he]
      exact ⟨s, List.mem_append_right _ List.mem_cons_self, hparent, rfl,
        rfl⟩
  complete := by
    intro s' u hs' hopens hfull
    rcases List.mem_append.mp hs' with hnew | hlast
    · exact (h.complete s' u hnew hopens hfull).mono
        (fun s hs => List.mem_append_left _ hs)
    · rw [List.mem_singleton.mp hlast] at hopens
      rw [hempty u hopens] at hfull
      cases hfull

/-- An entry is written, and then the table that it opens. -/
theorem Walking.enter {s : Visit} {u : Nat} {inner : List Visit}
    (h : Walking g t trace done new) (hpath : Denotes g trace path t)
    (hs : InOrder g (trace ++ new) s) (hparent : s.parent = t)
    (he : (s.key, s.value) = e) (hopens : s.Opens (Value.table u))
    (hfull : g.isEmptyArray u = false)
    (hinner : Walking g u (trace ++ new ++ [s]) (g.entriesOf u) inner) :
    Walking g t trace (done ++ [e]) (new ++ [s] ++ inner) := by
  have hopened : forall s', s' ∈ trace ++ new ++ [s] ++ inner ->
      s'.Opens (Value.table t) -> s' ∉ inner := by
    intro s' _ hopens' hin
    have hnew := hinner.ordered.opens_new hin hopens'
    rcases hpath with ⟨_, hglobals⟩ | ⟨s'', hs'', hopens'', _⟩
    · exact hnew.1 hglobals
    · exact hnew.2 s'' (List.mem_append_left _ (List.mem_append_left _ hs''))
        hopens''
  have hne : u ≠ t := by
    rintro rfl
    have hnew := (Ordered.snoc h.ordered hs).opens_new
      (List.mem_singleton_self s) hopens
    rcases hpath with ⟨_, hglobals⟩ | ⟨s'', hs'', hopens'', _⟩
    · exact hnew.1 hglobals
    · exact hnew.2 s'' (List.mem_append_left _ hs'') hopens''
  constructor
  · rw [← List.append_assoc, ← List.append_assoc]
    exact hinner.ordered
  · intro s' hs' hparent'
    rcases List.mem_append.mp hs' with hleft | hin
    · rcases List.mem_append.mp hleft with hnew | hlast
      · exact List.mem_append_left _ (h.entries s' hnew hparent')
      · rw [List.mem_singleton.mp hlast, he]
        exact List.mem_append_right _ List.mem_cons_self
    · exfalso
      rcases hinner.parents s' hin with htop | ⟨_, s'', hs'', hopens'⟩
      · exact hne (htop.symm.trans hparent')
      · rw [hparent'] at hopens'
        exact hopened s'' (List.mem_append_right _ hs'') hopens' hs''
  · intro s' hs'
    rcases List.mem_append.mp hs' with hleft | hin
    · rcases List.mem_append.mp hleft with hnew | hlast
      · rcases h.parents s' hnew with htop | ⟨hfull', s'', hs'', hopens'⟩
        · exact Or.inl htop
        · exact Or.inr ⟨hfull', s'', List.mem_append_left _
            (List.mem_append_left _ hs''), hopens'⟩
      · rw [List.mem_singleton.mp hlast]
        exact Or.inl hparent
    · right
      rcases hinner.parents s' hin with htop | ⟨hfull', s'', hs'', hopens'⟩
      · rw [htop]
        exact ⟨hfull, s, List.mem_append_left _
          (List.mem_append_right _ (List.mem_singleton_self s)), hopens⟩
      · exact ⟨hfull', s'', List.mem_append_right _ hs'', hopens'⟩
  · intro e' he' hkept
    rcases List.mem_append.mp he' with hdone | hlast
    · rcases h.writes e' hdone hkept with ⟨s', hs', hsame⟩
      exact ⟨s', List.mem_append_left _ (List.mem_append_left _ hs'), hsame⟩
    · rw [List.mem_singleton.mp hlast, ← he]
      exact ⟨s, List.mem_append_left _
        (List.mem_append_right _ (List.mem_singleton_self s)), hparent, rfl,
        rfl⟩
  · intro s' u' hs' hopens' hfull'
    rcases List.mem_append.mp hs' with hleft | hin
    · rcases List.mem_append.mp hleft with hnew | hlast
      · exact (h.complete s' u' hnew hopens' hfull').mono (fun s'' hs'' =>
          List.mem_append_left _ (List.mem_append_left _ hs''))
      · rw [List.mem_singleton.mp hlast] at hopens'
        have hsame : u' = u := Value.table.inj (hopens'.1.symm.trans hopens.1)
        rw [hsame]
        intro e' he' hkept
        rcases hinner.writes e' he' hkept with ⟨s'', hs'', hwritten⟩
        exact ⟨s'', List.mem_append_right _ hs'', hwritten⟩
    · exact (hinner.complete s' u' hin hopens' hfull').mono
        (fun s'' hs'' => List.mem_append_right _ hs'')

/-- The turns of a loop over a table. -/
theorem visitEntry_walking {visit : Nat -> List Value -> List Visit ->
      Except PreserveStop (List Visit)} {slots : Nat}
    {rest : List (Value × Value)} {trace' : List Visit}
    (hnested : forall u path trace trace',
      visit u path trace = Except.ok trace' -> Ordered g trace ->
      Denotes g trace path u -> (forall s, s ∈ trace -> s.parent ≠ u) ->
      exists new, trace' = trace ++ new ∧
        Walking g u trace (g.entriesOf u) new)
    (h : Walking g t trace done new) (hpath : Denotes g trace path t)
    (hfirst : forall s, s ∈ trace -> s.parent ≠ t)
    (hentries : g.entriesOf t = done ++ e :: rest)
    (hrun : visitEntry g visit slots t path (trace ++ new) e =
      Except.ok trace') :
    exists new', trace' = trace ++ new' ∧
      Walking g t trace (done ++ [e]) new' := by
  rcases visitEntry_cases hrun with
    ⟨hignore, rfl⟩ | ⟨hkept, hkey, seen, hobject, hscalar, hturn⟩
  · exact ⟨new, rfl, h.skip hignore⟩
  have hs := h.inOrder hpath hfirst hentries hkept hkey hobject hscalar
  rcases hturn with ⟨rfl, hempty⟩ | ⟨u, hu, hseen, hfull, hvisit⟩
  · refine ⟨new ++ [⟨t, path, e.1, e.2, seen⟩], List.append_assoc _ _ _, ?_⟩
    exact h.write hs rfl rfl (fun u hopens => hempty u hopens.1 hopens.2)
  · have hopens : Visit.Opens ⟨t, path, e.1, e.2, seen⟩ (Value.table u) :=
      ⟨hu, hseen⟩
    have hordered := Ordered.snoc h.ordered hs
    have hnew := hordered.opens_new (List.mem_singleton_self _) hopens
    rcases hnested u _ _ _ hvisit hordered
      (Or.inr ⟨_, List.mem_append_right _ (List.mem_singleton_self _),
        hopens, rfl⟩) (by
        intro s hsmem hparent
        have hold : exists s', s' ∈ trace ++ new ∧
            s'.Opens (Value.table u) := by
          rcases List.mem_append.mp hsmem with hleft | hlast
          · rcases h.ordered.parent_cases hleft with hglobals | hopened
            · exact absurd (hparent.symm.trans hglobals) hnew.1
            · rw [hparent] at hopened
              exact hopened
          · rw [List.mem_singleton.mp hlast] at hparent
            cases hparent
            rcases hpath with ⟨_, hglobals⟩ | ⟨s', hs', hopens', _⟩
            · exact absurd hglobals hnew.1
            · exact ⟨s', List.mem_append_left _ hs', hopens'⟩
        rcases hold with ⟨s', hs', hopens'⟩
        exact hnew.2 s' hs' hopens') with ⟨inner, rfl, hinner⟩
    refine ⟨new ++ [⟨t, path, e.1, e.2, seen⟩] ++ inner, ?_, ?_⟩
    · rw [List.append_assoc trace, List.append_assoc trace]
    · exact h.enter hpath hs rfl rfl hopens hfull hinner

/-- The walk of a table writes its entries, and those of the tables that it
opens. -/
theorem visitTable_walking (slots : Nat) :
    forall t path trace trace',
      visitTable g slots t path trace = Except.ok trace' ->
      Ordered g trace -> Denotes g trace path t ->
      (forall s, s ∈ trace -> s.parent ≠ t) ->
      exists new, trace' = trace ++ new ∧
        Walking g t trace (g.entriesOf t) new := by
  induction slots using Nat.twoStepInduction with
  | zero =>
      intro t path trace trace' h
      cases h
  | one =>
      intro t path trace trace' h
      cases h
  | more slots ih _ =>
      intro t path trace trace' h hordered hpath hfirst
      unfold visitTable at h
      apply foldlM_invariant (fun done trace' => exists new,
        trace' = trace ++ new ∧ Walking g t trace done new) _ _ h
      · rintro done e rest trace₁ trace₂ hentries ⟨new, rfl, hwalking⟩ hrun
        exact visitEntry_walking ih hwalking hpath hfirst hentries hrun
      · exact ⟨[], (List.append_nil trace).symm, walking_nil hordered⟩

/-- A walk over the globals is in order, opens each table once and writes every
entry that is preserved. -/
theorem visitTable_isWalk {slots : Nat} {trace : List Visit}
    (h : visitTable g slots g.globals [] [] = Except.ok trace) :
    IsWalk g trace := by
  rcases visitTable_walking slots _ _ _ _ h Ordered.nil (Or.inl ⟨rfl, rfl⟩)
    nofun with ⟨new, rfl, hwalking⟩
  constructor
  · exact hwalking.ordered
  · intro s hs
    rcases hwalking.parents s hs with htop | hopened
    · exact Or.inl htop
    · exact Or.inr hopened
  · intro t ht
    rcases ht with rfl | ⟨hfull, s, hs, hopens⟩
    · exact hwalking.writes
    · exact hwalking.complete s t hs hopens hfull

end

/-- A global table that is its own element, and another name for it. -/
def cyclicGlobals : LuaGlobals where
  tables := fun t =>
    if t = 0 then
      (RawTable.empty.setfield (ascii "a") (Value.table 1)).setfield
        (ascii "b") (Value.table 1)
    else RawTable.empty.setfield (ascii "self") (Value.table 1)
  hasMetatable := fun _ => false
  isArray := fun _ => false
  objlen := fun _ => 0
  getSerializeFunction := fun _ => none
  globals := 0

def cyclicFile : List UInt8 :=
  ascii "if _PRESERVATION_VERSION and _PRESERVATION_VERSION ~= 0 then " ++
    ascii "return end\n_G[\"a\"] = {}\n_G[\"a\"][\"self\"] = _G[\"a\"]\n" ++
    ascii "_G[\"b\"] = _G[\"a\"]\n"

theorem preserveGlobalData_cyclicGlobals :
    cyclicGlobals.preserveGlobalData (fun _ => [])
      Rounding.exact 16 =
      Except.ok cyclicFile := by
  rfl

end Core
end LuaSandbox
