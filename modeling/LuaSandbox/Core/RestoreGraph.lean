import LuaSandbox.Core.PreserveReturns
import LuaSandbox.Core.RestoreRun

/-!
# The restored graph

The lines of a state file build a copy of the graph of the global data, with
its sharing and its cycles, unless a table is written as an empty array that
has entries.
-/

namespace LuaSandbox
namespace Core

open Foundation Lua

/-- The tables of the global data. -/
inductive Held (g : LuaGlobals) : Nat -> Prop where
  | globals : Held g g.globals
  | inside {t u : Nat} {key : Value} (h : Held g t)
      (he : (key, Value.table u) ∈ g.entriesOf t)
      (hkept : g.ignoreValueType (Value.table u) = false) : Held g u

/-- The copy of each table has the entries of the table that are preserved, and
no others; the globals keep those that they had. -/
structure CopiesGraph (g : LuaGlobals) (L₀ L : Restoring) (phi : Nat -> Nat) :
    Prop where
  root : phi g.globals = L₀.globals
  injective : forall t u, Held g t -> Held g u -> phi t = phi u -> t = u
  fresh : forall t, Held g t -> t ≠ g.globals -> L₀.fresh <= phi t
  entry : forall t e, Held g t -> e ∈ g.entriesOf t ->
    g.ignoreValueType e.2 = false ->
    Copies phi e.2 ((L.tables (phi t)).rawget e.1)
  rest : forall t key, Held g t ->
    (forall e, e ∈ g.entriesOf t -> g.ignoreValueType e.2 = false ->
      rawequal e.1 key = false) ->
    (L.tables (phi t)).rawget key =
      if t = g.globals then (L₀.tables L₀.globals).rawget key else Value.nil
  others : forall x, x < L₀.fresh -> x ≠ L₀.globals ->
    L.tables x = L₀.tables x
  arrays : forall t, Held g t -> t ≠ g.globals ->
    L.arrays (phi t) = g.isEmptyArray t

/-- No table that is written as an empty array has an entry to preserve. -/
def NoneDropped (g : LuaGlobals) : Prop :=
  forall t, Held g t -> t ≠ g.globals -> g.isEmptyArray t = true ->
    forall e, e ∈ g.entriesOf t -> g.ignoreValueType e.2 = true

/-- What the data need to be restored: their literals are read back, they hold
no userdata, and the globals have no other `_G`. -/
def RestorableData (g : LuaGlobals) (read : Value -> Value) : Prop :=
  forall t e, Held g t -> e ∈ g.entriesOf t ->
    g.ignoreValueType e.2 = false ->
    ReadsBack read e.1 ∧ ReadsBack read e.2 ∧
      e.2.type ≠ LuaType.userdata ∧
      (t = g.globals -> e.1 ≠ Value.string (ascii "_G"))

section

variable {g : LuaGlobals} {L₀ L : Restoring} {trace : List Visit}
  {phi psi : Nat -> Nat} {read : Value -> Value}

theorem Ordered.held {t : Nat} (h : Ordered g trace)
    (ht : IsOpen g trace t) : Held g t := by
  induction h generalizing t with
  | nil =>
      rcases ht with rfl | ⟨s, hs, _⟩
      · exact Held.globals
      · cases hs
  | snoc _ hs ih =>
      rcases isOpen_concat ht with hold | hopens
      · exact ih hold
      · have hparent := ih hs.parent.isOpen
        have hentry := hs.entry
        have hkept := hs.kept
        rw [hopens.1] at hentry hkept
        exact Held.inside hparent hentry hkept

theorem RestorableData.all (h : RestorableData g read)
    (hordered : Ordered g trace) : AllRestorable g read trace := by
  intro s hs
  have hparent : IsOpen g trace s.parent := hordered.parent_cases hs
  rcases hordered.inOrder hs with ⟨_, _, _, hin⟩
  rcases h s.parent (s.key, s.value) (hordered.held hparent) hin.entry
    hin.kept with ⟨hkey, hvalue, hnot, hroot⟩
  exact ⟨hkey, hvalue, hnot, hroot⟩

/-- The run: all lines of a walk. -/
theorem runLines_rebuilt {format : Double.Value -> List UInt8} {r : Rounding}
    (call : List UInt8 -> Restoring -> Except RunError Restoring)
    (hordered : Ordered g trace) (hdata : RestorableData g read)
    (hroot : L₀.getglobal (ascii "_G") = Value.table L₀.globals) :
    exists L phi,
      runLines call (trace.map (fun s => (s.line format r g).map read)) L₀ =
        Except.ok L ∧ Rebuilt g L₀ L trace phi := by
  induction hordered with
  | nil => exact ⟨L₀, fun _ => L₀.globals, rfl, Rebuilt.start L₀ rfl⟩
  | snoc h hs ih =>
      rename_i trace s
      rcases ih with ⟨L, phi, hrun, hbuilt⟩
      have hall := hdata.all (Ordered.snoc h hs)
      rcases hbuilt.step call h
        (fun s' hs' => hall s' (List.mem_append_left _ hs')) hroot hs
        (hall s (List.mem_append_right _ (List.mem_singleton_self s))) with
        ⟨L', psi, hline, hbuilt'⟩
      refine ⟨L', psi, ?_, hbuilt'⟩
      unfold runLines at hrun ⊢
      rw [List.map_append, List.foldlM_append]
      apply except_bind_ok.mpr
      refine ⟨L, hrun, ?_⟩
      rw [List.map_singleton, List.foldlM_cons]
      exact except_bind_ok.mpr ⟨L', hline, rfl⟩

/-!
## What is restored
-/

/-- The table is not written as an empty array, or has no entry to preserve. -/
def Whole (g : LuaGlobals) (t : Nat) : Prop :=
  t ≠ g.globals -> g.isEmptyArray t = true ->
    forall e, e ∈ g.entriesOf t -> g.ignoreValueType e.2 = true

theorem IsWalk.writesAll {t : Nat} (h : IsWalk g trace)
    (ht : IsOpen g trace t) (hwhole : Whole g t) : WritesAll g trace t := by
  by_cases hroot : t = g.globals
  · exact h.complete t (Or.inl hroot)
  by_cases hempty : g.isEmptyArray t = true
  · intro e he hkept
    rw [hwhole hroot hempty e he] at hkept
    cases hkept
  · rcases ht with hglobals | hopened
    · exact absurd hglobals hroot
    · exact h.complete t (Or.inr ⟨Bool.eq_false_iff.mpr hempty, hopened⟩)

theorem IsWalk.isOpen {t : Nat} (h : IsWalk g trace)
    (hnone : NoneDropped g) (ht : Held g t) : IsOpen g trace t := by
  induction ht with
  | globals => exact Or.inl rfl
  | inside hheld he hkept ih =>
      rcases h.writesAll ih (hnone _ hheld) _ he hkept with
        ⟨s, hs, _, _, hvalue⟩
      exact Or.inr (h.ordered.opened hs hvalue)

/-- Nothing is dropped: the state is a copy. -/
theorem Rebuilt.copiesGraph (h : Rebuilt g L₀ L trace phi)
    (hwalk : IsWalk g trace) (hnone : NoneDropped g) :
    CopiesGraph g L₀ L phi := by
  have hopen : forall t, Held g t -> IsOpen g trace t :=
    fun t ht => hwalk.isOpen hnone ht
  have hopened : forall t, Held g t -> t ≠ g.globals ->
      exists s, s ∈ trace ∧ s.Opens (Value.table t) := by
    intro t ht hne
    rcases hopen t ht with hglobals | hs
    · exact absurd hglobals hne
    · exact hs
  constructor
  · rw [h.root, h.globals]
  · intro t u ht hu heq
    exact h.injective t u (hopen t ht) (hopen u hu) heq
  · intro t ht hne
    rcases hopened t ht hne with ⟨s, hs, hopens⟩
    exact (h.image s t hs hopens).1
  · intro t e ht he hkept
    rcases hwalk.writesAll (hopen t ht) (hnone t ht) e he hkept with
      ⟨s, hs, hparent, hkey, hvalue⟩
    have hentry := h.written s hs
    rw [hparent, hkey, hvalue] at hentry
    exact hentry
  · intro t key ht hkeys
    apply h.unwritten t key (hopen t ht)
    intro s hs hparent
    rcases hwalk.ordered.inOrder hs with ⟨_, _, _, hin⟩
    have hentry := hin.entry
    rw [hparent] at hentry
    exact hkeys (s.key, s.value) hentry hin.kept
  · exact h.others
  · intro t ht hne
    rcases hopened t ht hne with ⟨s, hs, hopens⟩
    exact h.arrays s t hs hopens

/-- If the state is a copy by any renaming, nothing is dropped. -/
theorem Rebuilt.noneDropped (h : Rebuilt g L₀ L trace phi)
    (hwalk : IsWalk g trace) (hcopies : CopiesGraph g L₀ L psi) :
    NoneDropped g := by
  -- the renamings agree, and all tables on the way are whole
  suffices hall : forall t, Held g t ->
      IsOpen g trace t ∧ psi t = phi t ∧ Whole g t by
    exact fun t ht => (hall t ht).2.2
  intro t ht
  induction ht with
  | globals =>
      refine ⟨Or.inl rfl, ?_, fun hne => absurd rfl hne⟩
      rw [hcopies.root, h.root, h.globals]
  | inside hheld he hkept ih =>
      rename_i t u key
      rcases ih with ⟨hopen, hagree, hwhole⟩
      rcases hwalk.writesAll hopen hwhole _ he hkept with
        ⟨s, hs, hparent, hkey, hvalue⟩
      have hu : IsOpen g trace u := Or.inr (hwalk.ordered.opened hs hvalue)
      have hsame : psi u = phi u := by
        have hfirst := h.written s hs
        have hsecond := hcopies.entry t _ hheld he hkept
        rw [hparent, hkey, hvalue] at hfirst
        rw [hagree] at hsecond
        generalize (L.tables (phi t)).rawget key = w at hfirst hsecond
        cases hfirst
        generalize hv : Value.table (phi u) = w at hsecond
        cases hsecond
        exact (Value.table.inj hv).symm
      refine ⟨hu, hsame, ?_⟩
      intro hne hempty e he'
      by_contra hnot
      have hkept' := Bool.eq_false_iff.mpr hnot
      have hentry := hcopies.entry u e (Held.inside hheld he hkept) he' hkept'
      have hnil := h.unwritten u e.1 hu (by
        intro s' hs' hparent'
        rcases hwalk.expanded s' hs' with hroot | ⟨hfull, _⟩
        · exact absurd (hparent'.symm.trans hroot) hne
        · rw [hparent', hempty] at hfull
          cases hfull)
      rw [if_neg hne] at hnil
      rw [hsame] at hentry
      exact hentry.ne_nil hnil

end

theorem restorableData_cyclicGlobals : RestorableData cyclicGlobals id := by
  intro t e _ he _
  rcases entriesOf_cyclicGlobals he with ⟨k, rfl, hne⟩
  refine ⟨fun _ => Copies.string k, ?_, nofun, ?_⟩
  · intro hscalar
    exact absurd hscalar (not_isScalar_table 1)
  · intro _ heq
    exact hne (Value.string.inj heq)

end Core
end LuaSandbox
