import LuaSandbox.Core.Restore

/-!
# The run of the lines

Running the lines of a walk builds a copy of what the walk has visited, one
entry a line.
-/

namespace LuaSandbox
namespace Core

open Foundation Lua

/-- The globals, and the tables that are opened. -/
def IsOpen (g : LuaGlobals) (trace : List Visit) (t : Nat) : Prop :=
  t = g.globals ∨ exists s, s ∈ trace ∧ s.Opens (Value.table t)

/-- The state after the lines of a walk, from the state `L₀` on: each open
table has a copy with the entries that are written, and nothing else has
changed. -/
structure Rebuilt (g : LuaGlobals) (L₀ L : Restoring) (trace : List Visit)
    (phi : Nat -> Nat) : Prop where
  root : phi g.globals = L.globals
  globals : L.globals = L₀.globals
  fresh_le : L₀.fresh <= L.fresh
  image : forall s t, s ∈ trace -> s.Opens (Value.table t) ->
    L₀.fresh <= phi t ∧ phi t < L.fresh
  injective : forall t u, IsOpen g trace t -> IsOpen g trace u ->
    phi t = phi u -> t = u
  written : forall s, s ∈ trace ->
    Copies phi s.value ((L.tables (phi s.parent)).rawget s.key)
  unwritten : forall t key, IsOpen g trace t ->
    (forall s, s ∈ trace -> s.parent = t -> rawequal s.key key = false) ->
    (L.tables (phi t)).rawget key =
      if t = g.globals then (L₀.tables L₀.globals).rawget key else Value.nil
  others : forall x, x < L₀.fresh -> x ≠ L₀.globals ->
    L.tables x = L₀.tables x
  arrays : forall s t, s ∈ trace -> s.Opens (Value.table t) ->
    L.arrays (phi t) = g.isEmptyArray t

/-- What a visit needs to be restored: its literals are read back, it holds no
userdata, and it is not the entry of the globals themselves. -/
structure Restorable (g : LuaGlobals) (read : Value -> Value) (s : Visit) :
    Prop where
  key : ReadsBack read s.key
  value : ReadsBack read s.value
  no_userdata : s.value.type ≠ LuaType.userdata
  not_root : s.parent = g.globals -> s.key ≠ Value.string (ascii "_G")

section

variable {g : LuaGlobals} {L₀ L : Restoring} {trace : List Visit}
  {phi psi : Nat -> Nat} {read : Value -> Value}

theorem IsOpen.mono {trace' : List Visit} {t : Nat} (h : IsOpen g trace t)
    (hsub : forall s, s ∈ trace -> s ∈ trace') : IsOpen g trace' t := by
  rcases h with h | ⟨s, hs, hopens⟩
  · exact Or.inl h
  · exact Or.inr ⟨s, hsub s hs, hopens⟩

theorem Denotes.isOpen {path : List Value} {t : Nat}
    (h : Denotes g trace path t) : IsOpen g trace t := by
  rcases h with ⟨_, h⟩ | ⟨s, hs, hopens, _⟩
  · exact Or.inl h
  · exact Or.inr ⟨s, hs, hopens⟩

theorem isOpen_concat {s : Visit} {t : Nat}
    (h : IsOpen g (trace ++ [s]) t) :
    IsOpen g trace t ∨ s.Opens (Value.table t) := by
  rcases h with h | ⟨s', hs', hopens⟩
  · exact Or.inl (Or.inl h)
  · rcases List.mem_append.mp hs' with hold | hlast
    · exact Or.inl (Or.inr ⟨s', hold, hopens⟩)
    · rw [List.mem_singleton.mp hlast] at hopens
      exact Or.inr hopens

/-- An entry is a key of the table that it is in. -/
theorem InOrder.isTableKey {s : Visit} (h : InOrder g trace s) :
    IsTableKey s.key := by
  have hentry := h.entry
  unfold LuaGlobals.entriesOf live at hentry
  split at hentry
  · exact RawTable.keys_valid _ _ (List.mem_filter.mp hentry).1
  · exact RawTable.keys_valid _ _ (List.mem_filter.mp hentry).1

theorem InOrder.rawequal_read {s : Visit} (h : InOrder g trace s)
    (hread : ReadsBack read s.key) :
    rawequal s.key (read s.key) = true :=
  (hread h.key).rawequal h.key h.isTableKey

/-!
## The invariant
-/

theorem Rebuilt.start (L₀ : Restoring)
    (hroot : phi g.globals = L₀.globals) : Rebuilt g L₀ L₀ [] phi where
  root := hroot
  globals := rfl
  fresh_le := Nat.le_refl _
  image := nofun
  injective := by
    intro t u ht hu _
    rcases ht with rfl | ⟨_, hs, _⟩
    · rcases hu with rfl | ⟨_, hs, _⟩
      · rfl
      · cases hs
    · cases hs
  written := nofun
  unwritten := by
    intro t key ht _
    rcases ht with rfl | ⟨_, hs, _⟩
    · rw [if_pos rfl, hroot]
    · cases hs
  others := fun _ _ _ => rfl
  arrays := nofun

theorem Rebuilt.image_lt (h : Rebuilt g L₀ L trace phi) {t : Nat}
    (ht : IsOpen g trace t) : phi t < L.fresh := by
  rcases ht with rfl | ⟨s, hs, hopens⟩
  · rw [h.root]
    exact L.globals_lt
  · exact (h.image s t hs hopens).2

/-- A copy is no table of the state before, but for the globals. -/
theorem Rebuilt.image_ne (h : Rebuilt g L₀ L trace phi) {t x : Nat}
    (ht : IsOpen g trace t) (hx : x < L₀.fresh) (hne : x ≠ L₀.globals) :
    x ≠ phi t := by
  rcases ht with rfl | ⟨s, hs, hopens⟩
  · rw [h.root, h.globals]
    exact hne
  · have hle := (h.image s t hs hopens).1
    omega

/-- Only the copies of open tables matter. -/
theorem Rebuilt.congr (h : Rebuilt g L₀ L trace phi)
    (hordered : Ordered g trace)
    (hsame : forall t, IsOpen g trace t -> psi t = phi t) :
    Rebuilt g L₀ L trace psi where
  root := by
    rw [hsame _ (Or.inl rfl)]
    exact h.root
  globals := h.globals
  fresh_le := h.fresh_le
  image := by
    intro s t hs hopens
    rw [hsame t (Or.inr ⟨s, hs, hopens⟩)]
    exact h.image s t hs hopens
  injective := by
    intro t u ht hu heq
    rw [hsame t ht, hsame u hu] at heq
    exact h.injective t u ht hu heq
  written := by
    intro s hs
    have hparent : IsOpen g trace s.parent := hordered.parent_cases hs
    rw [hsame _ hparent]
    apply (h.written s hs).congr
    intro t ht
    have hvalue : IsOpen g trace t := Or.inr (hordered.opened hs ht)
    exact (hsame t hvalue).symm
  unwritten := by
    intro t key ht hnone
    rw [hsame t ht]
    exact h.unwritten t key ht hnone
  others := h.others
  arrays := by
    intro s t hs hopens
    rw [hsame t (Or.inr ⟨s, hs, hopens⟩)]
    exact h.arrays s t hs hopens

theorem Rebuilt.newtable (h : Rebuilt g L₀ L trace phi)
    (hordered : Ordered g trace) (array : Bool) :
    Rebuilt g L₀ (L.newtable array) trace phi := by
  have hold : forall x, x < L.fresh ->
      (L.newtable array).tables x = L.tables x :=
    fun x hx => if_neg (Nat.ne_of_lt hx)
  constructor
  · exact h.root
  · exact h.globals
  · exact Nat.le_succ_of_le h.fresh_le
  · intro s t hs hopens
    have hrange := h.image s t hs hopens
    exact ⟨hrange.1, Nat.lt_succ_of_lt hrange.2⟩
  · exact h.injective
  · intro s hs
    rw [hold _ (h.image_lt (hordered.parent_cases hs))]
    exact h.written s hs
  · intro t key ht hnone
    rw [hold _ (h.image_lt ht)]
    exact h.unwritten t key ht hnone
  · intro x hx hne
    rw [hold x (Nat.lt_of_lt_of_le hx h.fresh_le)]
    exact h.others x hx hne
  · intro s t hs hopens
    have hlt := (h.image s t hs hopens).2
    have hkeep : (L.newtable array).arrays (phi t) = L.arrays (phi t) :=
      if_neg (Nat.ne_of_lt hlt)
    rw [hkeep]
    exact h.arrays s t hs hopens

/-- An entry is added to the copy of its table. -/
theorem Rebuilt.assign (h : Rebuilt g L₀ L trace phi)
    (hordered : Ordered g trace) {s : Visit} (hs : InOrder g trace s)
    (hread : ReadsBack read s.key) {w : Value} (hw : Copies phi s.value w)
    (hopen : forall u, s.Opens (Value.table u) ->
      (L₀.fresh <= phi u ∧ phi u < L.fresh) ∧
      (forall t, IsOpen g trace t -> phi t ≠ phi u) ∧
      ¬ IsOpen g trace u ∧ L.tables (phi u) = RawTable.empty ∧
      L.arrays (phi u) = g.isEmptyArray u)
    (hkey : IsTableKey (read s.key)) :
    Rebuilt g L₀ (L.update (phi s.parent)
      (fun T => T.rawset (read s.key) w hkey)) (trace ++ [s]) phi := by
  have hparent : IsOpen g trace s.parent := hs.parent.isOpen
  have hequal := hs.rawequal_read hread
  have hat : (L.update (phi s.parent)
      (fun T => T.rawset (read s.key) w hkey)).tables (phi s.parent) =
        (L.tables (phi s.parent)).rawset (read s.key) w hkey :=
    if_pos rfl
  have helse : forall x, x ≠ phi s.parent -> (L.update (phi s.parent)
      (fun T => T.rawset (read s.key) w hkey)).tables x = L.tables x :=
    fun x hx => if_neg hx
  -- a key that is not written stays as it is
  have hkeep : forall t key, IsOpen g trace t ->
      (t = s.parent -> rawequal s.key key = false) ->
      ((L.update (phi s.parent)
        (fun T => T.rawset (read s.key) w hkey)).tables (phi t)).rawget key =
          (L.tables (phi t)).rawget key := by
    intro t key ht hne
    by_cases hsame : t = s.parent
    · rw [hsame, hat, RawTable.rawget_rawset, if_neg]
      intro hk
      rw [rawequal_trans hequal hk] at hne
      cases hne hsame
    · rw [helse _ (fun heq => hsame (h.injective t _ ht hparent heq))]
  constructor
  · exact h.root
  · exact h.globals
  · exact h.fresh_le
  · intro s' t hs' hopens
    rcases List.mem_append.mp hs' with hold | hlast
    · exact h.image s' t hold hopens
    · rw [List.mem_singleton.mp hlast] at hopens
      exact (hopen t hopens).1
  · intro t u ht hu heq
    rcases isOpen_concat ht with ht | ht
    · rcases isOpen_concat hu with hu | hu
      · exact h.injective t u ht hu heq
      · exact absurd heq ((hopen u hu).2.1 t ht)
    · rcases isOpen_concat hu with hu | hu
      · exact absurd heq.symm ((hopen t ht).2.1 u hu)
      · exact Value.table.inj (ht.1.symm.trans hu.1)
  · intro s' hs'
    rcases List.mem_append.mp hs' with hold | hlast
    · rw [hkeep _ _ (hordered.parent_cases hold)
        (fun hsame => by
          rw [rawequal_comm]
          exact hs.once s' hold hsame)]
      exact h.written s' hold
    · rw [List.mem_singleton.mp hlast, hat, RawTable.rawget_rawset,
        if_pos (by rw [rawequal_comm]; exact hequal)]
      exact hw
  · intro t key ht hnone
    have hkeys : t = s.parent -> rawequal s.key key = false := fun hsame =>
      hnone s (List.mem_append_right _ (List.mem_singleton_self s)) hsame.symm
    rcases isOpen_concat ht with hold | hopens
    · rw [hkeep t key hold hkeys]
      exact h.unwritten t key hold
        (fun s' hs' => hnone s' (List.mem_append_left _ hs'))
    · rcases hopen t hopens with ⟨_, hfar, hnew, hempty, _⟩
      have hroot : t ≠ g.globals := fun hglobals => hnew (Or.inl hglobals)
      rw [helse _ (fun heq => hfar s.parent hparent heq.symm), hempty,
        if_neg hroot]
      exact RawTable.rawget_empty key
  · intro x hx hne
    rw [helse x (h.image_ne hparent hx hne)]
    exact h.others x hx hne
  · intro s' t hs' hopens
    rcases List.mem_append.mp hs' with hold | hlast
    · exact h.arrays s' t hold hopens
    · rw [List.mem_singleton.mp hlast] at hopens
      exact (hopen t hopens).2.2.2.2

/-!
## Paths
-/

/-- What the walk has visited can be restored. -/
def AllRestorable (g : LuaGlobals) (read : Value -> Value)
    (trace : List Visit) : Prop :=
  forall s, s ∈ trace -> Restorable g read s

/-- `_G` is the table of the globals, before and during the run. -/
theorem Rebuilt.root_eq (h : Rebuilt g L₀ L trace phi)
    (hall : AllRestorable g read trace)
    (hroot : L₀.getglobal (ascii "_G") = Value.table L₀.globals) :
    L.getglobal (ascii "_G") = Value.table (phi g.globals) := by
  have hnone : forall s, s ∈ trace -> s.parent = g.globals ->
      rawequal s.key (Value.string (ascii "_G")) = false := by
    intro s hs hparent
    rw [Bool.eq_false_iff, rawequal_comm]
    intro heq
    have hsame := (rawequal_of_ne_number (by decide)).mp heq
    exact (hall s hs).not_root hparent hsame.symm
  have hget := h.unwritten g.globals (Value.string (ascii "_G"))
    (Or.inl rfl) hnone
  rw [if_pos rfl, h.root] at hget
  unfold Restoring.getglobal at hroot ⊢
  rw [hget, hroot, h.root, h.globals]

/-- The path of an open table leads to its copy. -/
theorem Rebuilt.evalPath_eq (h : Rebuilt g L₀ L trace phi)
    (hordered : Ordered g trace) (hall : AllRestorable g read trace)
    (hroot : L₀.getglobal (ascii "_G") = Value.table L₀.globals)
    {path : List Value} {t : Nat} (hpath : Denotes g trace path t) :
    L.evalPath (path.map read) = Except.ok (Value.table (phi t)) := by
  induction path using List.reverseRecOn generalizing t with
  | nil =>
      rcases hpath with ⟨_, rfl⟩ | ⟨s, _, _, hname⟩
      · exact congrArg Except.ok (h.root_eq hall hroot)
      · exact absurd hname (List.append_ne_nil_of_right_ne_nil _ nofun)
  | append_singleton path k ih =>
      rcases hpath with ⟨hnil, _⟩ | ⟨s, hs, hopens, hname⟩
      · exact absurd hnil (List.append_ne_nil_of_right_ne_nil _ nofun)
      rcases List.append_inj' hname rfl with ⟨rfl, hlast⟩
      cases hlast
      rcases hordered.inOrder hs with ⟨before, after, rfl, hin⟩
      have hparent : Denotes g (before ++ s :: after) s.path s.parent :=
        hin.parent.mono (fun s' hs' => List.mem_append_left _ hs')
      have hentry := h.written s hs
      rw [hopens.1] at hentry
      have hequal := hin.rawequal_read (hall s hs).key
      unfold Restoring.evalPath
      rw [List.map_append, List.foldlM_append]
      apply except_bind_ok.mpr
      refine ⟨_, ih hparent, ?_⟩
      change (L.gettable (Value.table (phi s.parent)) (read s.key) >>=
        fun v => Except.ok v) = _
      change Except.ok ((L.tables (phi s.parent)).rawget (read s.key)) = _
      rw [← RawTable.rawget_congr _ hequal]
      generalize (L.tables (phi s.parent)).rawget s.key = v at hentry
      cases hentry
      rfl

/-!
## Lines
-/

theorem runLine_assign
    {call : List UInt8 -> Restoring -> Except RunError Restoring}
    {path : List Value} {key : Value} {rhs : Rhs} {t : Nat} {w : Value}
    {L₁ : Restoring} (hpath : L.evalPath path = Except.ok (Value.table t))
    (hrhs : L.evalRhs rhs = Except.ok (w, L₁)) (hkey : IsTableKey key) :
    L.runLine call (Line.assign path key rhs) =
      Except.ok (L₁.update t (fun T => T.rawset key w hkey)) := by
  unfold Restoring.runLine
  apply except_bind_ok.mpr
  refine ⟨_, hpath, except_bind_ok.mpr ⟨_, hrhs, ?_⟩⟩
  exact dif_pos hkey

/-- A table that is opened next is not open, and no global. -/
theorem InOrder.not_isOpen {s : Visit} {u : Nat} (hs : InOrder g trace s)
    (hopens : s.Opens (Value.table u)) : ¬ IsOpen g trace u := by
  have hseen := hs.object (by rw [hopens.1]; exact Or.inl rfl)
  rw [hopens.1, hopens.2] at hseen
  have hkept := hs.kept
  rw [hopens.1] at hkept
  rintro (hglobals | ⟨s', hs', hopens'⟩)
  · exact ne_globals hkept hglobals
  · exact findVisit_none.mp hseen.symm s' hs' hopens'

theorem line_of_scalar {format : Double.Value -> List UInt8} {r : Rounding}
    {s : Visit} (hvalue : IsScalar s.value) (hseen : s.seen = none) :
    s.line format r g = Line.assign s.path s.key (Rhs.scalar s.value) := by
  unfold Visit.line
  rw [hseen]
  generalize s.value = v at hvalue
  cases v with
  | string x => rfl
  | number x => rfl
  | boolean x => rfl
  | _ => rcases hvalue with h | h | h <;> cases h

/-- The step: the line of the next visit adds its entry. -/
theorem Rebuilt.step {format : Double.Value -> List UInt8} {r : Rounding}
    (call : List UInt8 -> Restoring -> Except RunError Restoring)
    (h : Rebuilt g L₀ L trace phi) (hordered : Ordered g trace)
    (hall : AllRestorable g read trace)
    (hroot : L₀.getglobal (ascii "_G") = Value.table L₀.globals)
    {s : Visit} (hs : InOrder g trace s) (hr : Restorable g read s) :
    exists L' psi,
      L.runLine call ((s.line format r g).map read) = Except.ok L' ∧
        Rebuilt g L₀ L' (trace ++ [s]) psi := by
  have hpath := h.evalPath_eq hordered hall hroot hs.parent
  have hkey := isTableKey_of_rawequal (hs.rawequal_read hr.key) hs.isTableKey
  by_cases hscalar : IsScalar s.value
  · have hseen := hs.scalar (not_isObject_of_scalar hscalar)
    rw [line_of_scalar hscalar hseen]
    refine ⟨_, phi, runLine_assign hpath rfl hkey, ?_⟩
    apply h.assign hordered hs hr.key
    · exact (hr.value hscalar).congr
        (fun t ht => absurd hscalar (ht ▸ not_isScalar_table t))
    · intro u hopens
      rw [hopens.1] at hscalar
      exact absurd hscalar (not_isScalar_table u)
  cases hvalue : s.value with
  | table u =>
      cases hseen : s.seen with
      | some q =>
          have hfind := hs.object (by rw [hvalue]; exact Or.inl rfl)
          rw [hvalue, hseen] at hfind
          rcases findVisit_some hfind.symm with ⟨s', hs', hopens, hname⟩
          have htarget := h.evalPath_eq hordered hall hroot
            (Or.inr ⟨s', hs', hopens, hname⟩)
          have hline : (s.line format r g).map read =
              Line.assign (s.path.map read) (read s.key)
                (Rhs.reference (q.map read)) := by
            unfold Visit.line
            rw [hseen]
            rfl
          have hrhs : L.evalRhs (Rhs.reference (q.map read)) =
              Except.ok (Value.table (phi u), L) := by
            change (L.evalPath (q.map read)).map _ = _
            rw [htarget]
            rfl
          rw [hline]
          refine ⟨_, phi, runLine_assign hpath hrhs hkey, ?_⟩
          apply h.assign hordered hs hr.key
          · rw [hvalue]
            exact Copies.table u
          · intro u' hopens'
            rw [hopens'.2] at hseen
            cases hseen
      | none =>
          have hopens : s.Opens (Value.table u) := ⟨hvalue, hseen⟩
          have hnew := hs.not_isOpen hopens
          have hline : (s.line format r g).map read =
              Line.assign (s.path.map read) (read s.key)
                (if g.isEmptyArray u then Rhs.emptyArray
                  else Rhs.emptyTable) := by
            unfold Visit.line
            rw [hseen, hvalue]
            dsimp only
            split
            · rfl
            · rfl
          have hrhs : L.evalRhs (if g.isEmptyArray u then Rhs.emptyArray
                else Rhs.emptyTable) =
              Except.ok (Value.table L.fresh,
                L.newtable (g.isEmptyArray u)) := by
            cases g.isEmptyArray u
            · rfl
            · rfl
          have hsame : forall t, IsOpen g trace t ->
              Function.update phi u L.fresh t = phi t := by
            intro t ht
            apply Function.update_of_ne
            rintro rfl
            exact hnew ht
          have hat : Function.update phi u L.fresh u = L.fresh :=
            Function.update_self u L.fresh phi
          have hpath' := hsame _ hs.parent.isOpen
          have hbuilt := (h.newtable hordered (g.isEmptyArray u)).congr
            hordered hsame
          rw [hline]
          refine ⟨_, Function.update phi u L.fresh,
            runLine_assign hpath hrhs hkey, ?_⟩
          rw [← hpath']
          apply hbuilt.assign hordered hs hr.key
          · have hcopy := @Copies.table (Function.update phi u L.fresh) u
            rw [hat] at hcopy
            rw [hvalue]
            exact hcopy
          · intro u' hopens'
            have hu : u' = u :=
              Value.table.inj (hopens'.1.symm.trans hvalue)
            rw [hu, hat]
            refine ⟨⟨h.fresh_le, Nat.lt_succ_self _⟩, ?_, hnew, if_pos rfl,
              if_pos rfl⟩
            intro t ht
            rw [hsame t ht]
            exact Nat.ne_of_lt (h.image_lt ht)
  | userdata u =>
      exact absurd (congrArg Value.type hvalue) hr.no_userdata
  | string x => exact absurd (hvalue ▸ Or.inl rfl) hscalar
  | number x => exact absurd (hvalue ▸ Or.inr (Or.inl rfl)) hscalar
  | boolean x => exact absurd (hvalue ▸ Or.inr (Or.inr rfl)) hscalar
  | _ =>
      have hkept := hs.kept
      rw [hvalue] at hkept
      cases hkept

end

end Core
end LuaSandbox
