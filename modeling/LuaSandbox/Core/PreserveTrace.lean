import LuaSandbox.Core.Preserve

/-!
# The lines of a state file

The pass as a walk that notes every entry it writes, with paths of keys in place
of positions in a buffer.  The state file is the text of its notes.
-/

namespace LuaSandbox
namespace Core

open Foundation Lua
open Util (serializeDoubleText)

/-!
## The walk
-/

/-- A written entry of the table `parent`, and the path to the object that it
refers to. -/
structure Visit where
  parent : Nat
  path : List Value
  key : Value
  value : Value
  seen : Option (List Value)
  deriving DecidableEq

namespace Visit

def name (s : Visit) : List Value := s.path ++ [s.key]

/-- The first entry that leads to an object. -/
def Opens (s : Visit) (v : Value) : Prop := s.value = v ∧ s.seen = none

instance (s : Visit) (v : Value) : Decidable (s.Opens v) :=
  inferInstanceAs (Decidable (s.value = v ∧ s.seen = none))

end Visit

def findVisit (trace : List Visit) (v : Value) : Option (List Value) :=
  (trace.find? (fun s => s.Opens v)).map Visit.name

/-- Whether a value can be written; a string takes four slots. -/
def checkData (slots : Nat) : Value -> Except PreserveStop Unit
  | Value.number _ => Except.ok ()
  | Value.string _ =>
      if slots < 4 then Except.error PreserveStop.stackOverflow
      else Except.ok ()
  | Value.boolean _ => Except.ok ()
  | v => Except.error (PreserveStop.error (cannotPreserve v))

section

variable (g : LuaGlobals)

def visitEntry (visitTable : Nat -> List Value -> List Visit ->
    Except PreserveStop (List Visit)) (slots t : Nat) (path : List Value)
    (trace : List Visit) (e : Value × Value) :
    Except PreserveStop (List Visit) :=
  if g.ignoreValueType e.2 then Except.ok trace
  else do
    checkData slots e.1
    match e.2 with
    | Value.table u =>
        match findVisit trace e.2 with
        | none =>
            let trace := trace ++ [⟨t, path, e.1, e.2, none⟩]
            if g.isEmptyArray u then Except.ok trace
            else visitTable u (path ++ [e.1]) trace
        | some q => Except.ok (trace ++ [⟨t, path, e.1, e.2, some q⟩])
    | Value.userdata _ =>
        Except.ok (trace ++ [⟨t, path, e.1, e.2, findVisit trace e.2⟩])
    | _ => do
        checkData slots e.2
        Except.ok (trace ++ [⟨t, path, e.1, e.2, none⟩])

def visitTable :
    Nat -> Nat -> List Value -> List Visit -> Except PreserveStop (List Visit)
  | slots + 2, t, path, trace =>
      (g.entriesOf t).foldlM (visitEntry g (visitTable slots) slots t path)
        trace
  | _, _, _, _ => Except.error PreserveStop.stackOverflow

end

/-!
## The lines
-/

inductive Rhs where
  | emptyTable
  | emptyArray
  | reference (path : List Value)
  | scalar (v : Value)
  deriving DecidableEq

/-- An assignment, or what a userdata writes. -/
inductive Line where
  | assign (path : List Value) (key : Value) (rhs : Rhs)
  | code (text : List UInt8)
  deriving DecidableEq

section

variable (format : Double.Value -> List UInt8) (r : Rounding)

def nameText (path : List Value) : List UInt8 :=
  ascii "_G" ++ path.flatMap (fun k => [0x5b] ++ literal format r k ++ [0x5d])

def Rhs.text : Rhs -> List UInt8
  | emptyTable => ascii "{}"
  | emptyArray => ascii "{nil}"
  | reference path => nameText format r path
  | scalar v => literal format r v

def Line.text : Line -> List UInt8
  | assign path key rhs =>
      nameText format r (path ++ [key]) ++ ascii " = " ++ rhs.text format r ++
        [0x0a]
  | code text => text

variable (g : LuaGlobals)

def Visit.line (s : Visit) : Line :=
  match s.seen, s.value with
  | some q, _ => Line.assign s.path s.key (Rhs.reference q)
  | none, Value.table u =>
      Line.assign s.path s.key
        (if g.isEmptyArray u then Rhs.emptyArray else Rhs.emptyTable)
  | none, Value.userdata u =>
      Line.code (((g.getSerializeFunction u).bind
        (fun fp => fp (nameText format r s.name))).getD [])
  | none, v => Line.assign s.path s.key (Rhs.scalar v)

def traceText (trace : List Visit) : List UInt8 :=
  trace.flatMap (fun s => (s.line format r g).text format r)

end

/-!
## Names in the buffer
-/

/-- A name with its NUL stands at a position. -/
def NameAt (buf : List UInt8) (pos : Nat) (name : List UInt8) : Prop :=
  exists before after, buf = before ++ (name ++ 0 :: after) ∧
    before.length = pos ∧ 0 ∉ name

section

variable {buf name : List UInt8} {pos : Nat}

theorem takeWhile_name {after : List UInt8} (h : 0 ∉ name) :
    (name ++ 0 :: after).takeWhile (fun b => b ≠ 0) = name := by
  rw [List.takeWhile_append_of_pos]
  · rw [List.takeWhile_cons_of_neg (by decide), List.append_nil]
  · intro b hb
    apply decide_eq_true
    rintro rfl
    exact h hb

theorem NameAt.stringAt_eq (h : NameAt buf pos name) :
    stringAt buf pos = name := by
  rcases h with ⟨before, after, rfl, rfl, hzero⟩
  unfold stringAt
  rw [List.drop_left]
  exact takeWhile_name hzero

/-- A name stays where it is when the buffer grows. -/
theorem NameAt.mono {buf' : List UInt8} (h : NameAt buf pos name)
    (hgrow : buf <+: buf') : NameAt buf' pos name := by
  rcases h with ⟨before, after, rfl, hpos, hzero⟩
  rcases hgrow with ⟨more, rfl⟩
  refine ⟨before, after ++ more, ?_, hpos, hzero⟩
  rw [List.append_assoc, List.append_assoc]
  rfl

theorem nameAt_append (buf : List UInt8) (h : 0 ∉ name) :
    NameAt (buf ++ name ++ [0]) buf.length name :=
  ⟨buf, [], List.append_assoc _ _ _, rfl, h⟩

end

section

variable {format : Double.Value -> List UInt8} {r : Rounding}

theorem zero_not_mem_of_digits {ds : List UInt8} (h : AllDigits ds) :
    0 ∉ ds :=
  fun hzero => absurd (h 0 hzero) (by decide)

theorem digitChar_tmod (number : Int) :
    Util.digitChar (number.tmod 10) ≠ 0 := by
  have hlow := Int.lt_tmod_of_pos number (show (0 : Int) < 10 by decide)
  have hhigh := Int.tmod_lt_of_pos number (show (0 : Int) < 10 by decide)
  intro hzero
  have hnat := congrArg UInt8.toNat hzero
  unfold Util.digitChar at hnat
  rw [UInt8.toNat_ofNat'] at hnat
  change _ = 0 at hnat
  omega

theorem zero_not_mem_numberLoop (n : Nat) :
    forall number, 0 ∉ Util.numberLoop n number := by
  induction n with
  | zero =>
      intro number
      exact List.not_mem_nil
  | succ n ih =>
      intro number hzero
      unfold Util.numberLoop at hzero
      rcases List.mem_cons.mp hzero with h | h
      · exact digitChar_tmod number h.symm
      · split at h
        · exact ih _ h
        · cases h

theorem zero_not_mem_text (p : Util.NumberParts) : 0 ∉ p.text := by
  have hfraction : 0 ∉ Util.fractionDigits p.fraction := by
    unfold Util.fractionDigits
    split
    · intro hzero
      rcases List.mem_append.mp hzero with h | h
      · exact zero_not_mem_of_digits (Util.fractionLoop_digits _ _ _) h
      · cases List.mem_singleton.mp h
    · exact List.not_mem_nil
  unfold Util.NumberParts.text Util.NumberParts.buffer Util.numberDigits
  rw [List.mem_append, List.mem_reverse, List.mem_append]
  rintro (h | h | h)
  · split at h
    · cases List.mem_singleton.mp h
    · cases h
  · exact hfraction h
  · exact zero_not_mem_numberLoop _ _ h

/-- No text of a number has a NUL. -/
def CStrings (format : Double.Value -> List UInt8) : Prop :=
  forall d, 0 ∉ format d

theorem zero_not_mem_literal (hformat : CStrings format) (v : Value) :
    0 ∉ literal format r v := by
  cases v with
  | number d =>
      change 0 ∉ serializeDoubleText format r d.value
      unfold serializeDoubleText
      split
      · decide
      · decide
      · decide
      · unfold Util.outputfdText
        split
        · exact hformat _
        · exact zero_not_mem_text _
  | string s => exact zero_not_mem_addquoted s
  | boolean b =>
      cases b
      · change 0 ∉ ascii "false"
        decide
      · change 0 ∉ ascii "true"
        decide
  | _ => exact List.not_mem_nil

theorem zero_not_mem_nameText (hformat : CStrings format)
    (path : List Value) : 0 ∉ nameText format r path := by
  unfold nameText
  rw [List.mem_append, List.mem_flatMap]
  rintro (h | ⟨k, _, h⟩)
  · exact absurd h (by decide)
  · rw [List.mem_append, List.mem_append] at h
    rcases h with (h | h) | h
    · exact absurd h (by decide)
    · exact zero_not_mem_literal hformat k h
    · exact absurd h (by decide)

theorem nameText_concat (path : List Value) (k : Value) :
    nameText format r (path ++ [k]) =
      nameText format r path ++ [0x5b] ++ literal format r k ++ [0x5d] := by
  unfold nameText
  rw [List.flatMap_append, List.flatMap_singleton]
  simp only [List.append_assoc]

end

/-!
## The file is the text of the walk
-/

def IsObject (v : Value) : Prop :=
  v.type = LuaType.table ∨ v.type = LuaType.userdata

/-- A position is that of the name of a path. -/
def Locates (format : Double.Value -> List UInt8) (r : Rounding)
    (keys : List UInt8) : Option (List Value) -> Option Nat -> Prop
  | none, none => True
  | some path, some pos => NameAt keys pos (nameText format r path)
  | _, _ => False

/-- What is written for a walk. -/
structure Written (format : Double.Value -> List UInt8) (r : Rounding)
    (g : LuaGlobals) (header : List UInt8) (data : SerializationData)
    (trace : List Visit) : Prop where
  file : data.fh = header ++ traceText format r g trace
  refs : forall v, IsObject v ->
    Locates format r data.keys (findVisit trace v)
      (findTableRef data.tables v)

section

variable {format : Double.Value -> List UInt8} {r : Rounding}
variable {g : LuaGlobals} {header : List UInt8} {data : SerializationData}
variable {trace : List Visit}

theorem Locates.cases {keys : List UInt8} {path : Option (List Value)}
    {pos : Option Nat} (h : Locates format r keys path pos) :
    (path = none ∧ pos = none) ∨ exists q n, path = some q ∧ pos = some n ∧
      NameAt keys n (nameText format r q) := by
  cases path with
  | none =>
      cases pos with
      | none => exact Or.inl ⟨rfl, rfl⟩
      | some n => exact h.elim
  | some q =>
      cases pos with
      | none => exact h.elim
      | some n => exact Or.inr ⟨q, n, rfl, rfl, h⟩

theorem Locates.mono {keys keys' : List UInt8} {path : Option (List Value)}
    {pos : Option Nat} (h : Locates format r keys path pos)
    (hgrow : keys <+: keys') : Locates format r keys' path pos := by
  cases path with
  | none =>
      cases pos with
      | none => trivial
      | some n => exact h.elim
  | some q =>
      cases pos with
      | none => exact h.elim
      | some n => exact NameAt.mono h hgrow

theorem findVisit_concat (trace : List Visit) (s : Visit) (v : Value) :
    findVisit (trace ++ [s]) v =
      (findVisit trace v).or (if s.Opens v then some s.name else none) := by
  unfold findVisit
  rw [List.find?_append, List.find?_singleton, Option.map_or]
  congr 1
  split
  · rename_i h
    rw [if_pos (of_decide_eq_true h)]
    rfl
  · rename_i h
    rw [if_neg (fun hopens => h (decide_eq_true hopens))]
    rfl

theorem findTableRef_concat (tables : List (Value × Nat)) (ptr v : Value)
    (pos : Nat) : findTableRef (tables ++ [(ptr, pos)]) v =
      (findTableRef tables v).or (if ptr = v then some pos else none) := by
  unfold findTableRef
  rw [List.find?_append, List.find?_singleton, Option.map_or]
  congr 1
  split
  · rename_i h
    rw [if_pos (of_decide_eq_true h)]
    rfl
  · rename_i h
    rw [if_neg (fun hsame => h (decide_eq_true hsame))]
    rfl

theorem traceText_concat (trace : List Visit) (s : Visit) :
    traceText format r g (trace ++ [s]) =
      traceText format r g trace ++ (s.line format r g).text format r := by
  unfold traceText
  rw [List.flatMap_append, List.flatMap_singleton]

/-- A line that opens no object. -/
theorem Written.line (h : Written format r g header data trace) {s : Visit}
    (hs : forall v, IsObject v -> ¬ s.Opens v) :
    Written format r g header
      { data with fh := data.fh ++ (s.line format r g).text format r }
      (trace ++ [s]) where
  file := by
    rw [traceText_concat, h.file]
    exact List.append_assoc _ _ _
  refs := by
    intro v hv
    rw [findVisit_concat, if_neg (hs v hv), Option.or_none]
    exact h.refs v hv

/-- A line that opens an object: its name is kept. -/
theorem Written.opening (hformat : CStrings format)
    (h : Written format r g header data trace) {s : Visit}
    (hseen : s.seen = none)
    (hnew : findTableRef data.tables s.value = none) :
    Written format r g header
      ⟨data.fh ++ (s.line format r g).text format r,
        data.keys ++ nameText format r s.name ++ [0],
        data.tables ++ [(s.value, data.keys.length)]⟩ (trace ++ [s]) where
  file := by
    rw [traceText_concat, h.file]
    exact List.append_assoc _ _ _
  refs := by
    intro v hv
    have hbefore := h.refs v hv
    rw [findVisit_concat, findTableRef_concat]
    by_cases hsame : s.value = v
    · subst hsame
      rw [hnew] at hbefore ⊢
      rw [if_pos ⟨rfl, hseen⟩, if_pos rfl]
      cases hfind : findVisit trace s.value with
      | none =>
          exact nameAt_append data.keys (zero_not_mem_nameText hformat s.name)
      | some q =>
          rw [hfind] at hbefore
          exact hbefore.elim
    · rw [if_neg (fun hopens => hsame hopens.1), if_neg hsame,
        Option.or_none, Option.or_none]
      apply hbefore.mono
      rw [List.append_assoc]
      exact List.prefix_append _ _

end

/-- What the pass and the walk keep: the file is the text of the walk, and the
buffer only grows. -/
def Follows (format : Double.Value -> List UInt8) (r : Rounding)
    (g : LuaGlobals) (header keys : List UInt8) (data : SerializationData)
    (trace : List Visit) : Prop :=
  Written format r g header data trace ∧ keys <+: data.keys

section

variable {format : Double.Value -> List UInt8} {r : Rounding}
variable {g : LuaGlobals} {header : List UInt8}

theorem serializeData_agrees (slots : Nat) (v : Value) :
    Agree (fun text _ => text = literal format r v)
      (serializeData format r slots v) (checkData slots v) := by
  cases v with
  | number d => exact rfl
  | string s =>
      unfold serializeData checkData
      dsimp only
      split
      · exact rfl
      · exact rfl
  | boolean b => exact rfl
  | _ => exact rfl

theorem text_emptyTable (path : List Value) (k : Value) :
    (Line.assign path k Rhs.emptyTable).text format r =
      nameText format r (path ++ [k]) ++ ascii " = {}\n" := by
  have hend : ascii " = {}\n" = ascii " = " ++ (ascii "{}" ++ [0x0a]) := by
    decide
  rw [hend, ← List.append_assoc, ← List.append_assoc]
  rfl

theorem text_emptyArray (path : List Value) (k : Value) :
    (Line.assign path k Rhs.emptyArray).text format r =
      nameText format r (path ++ [k]) ++ ascii " = {nil}\n" := by
  have hend : ascii " = {nil}\n" =
      ascii " = " ++ (ascii "{nil}" ++ [0x0a]) := by
    decide
  rw [hend, ← List.append_assoc, ← List.append_assoc]
  rfl

/-- The step: an entry is written as the walk notes it. -/
theorem serializeKvp_follows (hformat : CStrings format)
    {serialize : Nat -> Nat -> SerializationData ->
      Except PreserveStop SerializationData}
    {visit : Nat -> List Value -> List Visit ->
      Except PreserveStop (List Visit)}
    (hnested : forall u pos path data trace,
      Written format r g header data trace ->
      NameAt data.keys pos (nameText format r path) ->
      Agree (Follows format r g header data.keys) (serialize u pos data)
        (visit u path trace))
    (slots : Nat) {parent t : Nat} {path : List Value}
    {data : SerializationData} {trace : List Visit} (e : Value × Value)
    (h : Written format r g header data trace)
    (hparent : NameAt data.keys parent (nameText format r path)) :
    Agree (Follows format r g header data.keys)
      (serializeKvp format r g serialize slots parent data e)
      (visitEntry g visit slots t path trace e) := by
  rcases e with ⟨k, v⟩
  unfold serializeKvp visitEntry
  by_cases hignore : g.ignoreValueType v = true
  · rw [if_pos hignore, if_pos hignore]
    exact ⟨h, List.prefix_refl _⟩
  rw [if_neg hignore, if_neg hignore]
  apply Agree.bind (serializeData_agrees slots k)
  rintro key _ rfl
  have hname : stringAt data.keys parent ++ [0x5b] ++ literal format r k ++
      [0x5d] = nameText format r (path ++ [k]) := by
    rw [nameText_concat, hparent.stringAt_eq]
  have hgrow : forall name : List UInt8,
      data.keys <+: data.keys ++ name ++ [0] := by
    intro name
    rw [List.append_assoc]
    exact List.prefix_append _ _
  rw [hname]
  have hreference : forall {q pos}, NameAt data.keys pos
      (nameText format r q) -> Follows format r g header data.keys
        { data with
          fh := data.fh ++ (nameText format r (path ++ [k]) ++ ascii " = " ++
            stringAt data.keys pos ++ [0x0a]) }
        (trace ++ [⟨t, path, k, v, some q⟩]) := by
    intro q pos hat
    rw [hat.stringAt_eq]
    constructor
    · exact h.line (s := ⟨t, path, k, v, some q⟩)
        (fun w _ hopens => nomatch hopens.2)
    · exact List.prefix_refl _
  have hscalar : (forall w, IsObject w -> v ≠ w) ->
      Follows format r g header data.keys
        { data with
          fh := data.fh ++ (Visit.line format r g
            ⟨t, path, k, v, none⟩).text format r }
        (trace ++ [⟨t, path, k, v, none⟩]) := by
    intro hne
    constructor
    · exact h.line (s := ⟨t, path, k, v, none⟩)
        (fun w hw hopens => hne w hw hopens.1)
    · exact List.prefix_refl _
  cases v with
  | table u =>
      dsimp only
      rcases (h.refs (Value.table u) (Or.inl rfl)).cases with
        ⟨hfind, href⟩ | ⟨q, pos, hfind, href, hat⟩
      · have hopen := h.opening hformat
          (s := ⟨t, path, k, Value.table u, none⟩) rfl href
        rw [hfind, href]
        dsimp only
        unfold Visit.line at hopen
        by_cases hempty : g.isEmptyArray u = true
        · rw [if_pos hempty, if_pos hempty]
          dsimp only at hopen
          rw [if_pos hempty, text_emptyArray] at hopen
          exact ⟨hopen, hgrow _⟩
        · rw [if_neg hempty, if_neg hempty]
          dsimp only at hopen
          rw [if_neg hempty, text_emptyTable] at hopen
          have hat := nameAt_append data.keys
            (zero_not_mem_nameText (r := r) hformat (path ++ [k]))
          apply (hnested u data.keys.length (path ++ [k]) _ _ hopen hat).imp
          rintro data' trace' ⟨hwritten, hprefix⟩
          exact ⟨hwritten, (hgrow _).trans hprefix⟩
      · rw [hfind, href]
        exact hreference hat
  | userdata u =>
      dsimp only
      rcases (h.refs (Value.userdata u) (Or.inr rfl)).cases with
        ⟨hfind, href⟩ | ⟨q, pos, hfind, href, hat⟩
      · rw [hfind, href]
        exact ⟨h.opening hformat
          (s := ⟨t, path, k, Value.userdata u, none⟩) rfl href, hgrow _⟩
      · rw [hfind, href]
        exact hreference hat
  | string x =>
      apply Agree.bind (serializeData_agrees slots (Value.string x))
      rintro text _ rfl
      exact hscalar (by rintro w (hw | hw) rfl <;> cases hw)
  | number d =>
      apply Agree.bind (serializeData_agrees slots (Value.number d))
      rintro text _ rfl
      exact hscalar (by rintro w (hw | hw) rfl <;> cases hw)
  | boolean b =>
      apply Agree.bind (serializeData_agrees slots (Value.boolean b))
      rintro text _ rfl
      exact hscalar (by rintro w (hw | hw) rfl <;> cases hw)
  | _ => exact absurd rfl hignore

theorem serializeTable_follows (hformat : CStrings format) (slots : Nat) :
    forall t pos path data trace, Written format r g header data trace ->
      NameAt data.keys pos (nameText format r path) ->
      Agree (Follows format r g header data.keys)
        (serializeTable format r g slots t pos data)
        (visitTable g slots t path trace) := by
  induction slots using Nat.twoStepInduction with
  | zero =>
      intro t pos path data trace _ _
      exact rfl
  | one =>
      intro t pos path data trace _ _
      exact rfl
  | more slots ih _ =>
      intro t pos path data trace h hpos
      unfold serializeTable visitTable
      apply foldlM_agree
      · rintro data' trace' e ⟨hwritten, hprefix⟩
        apply (serializeKvp_follows hformat ih slots e hwritten
          (hpos.mono hprefix)).imp
        rintro data'' trace'' ⟨hwritten', hprefix'⟩
        exact ⟨hwritten', hprefix.trans hprefix'⟩
      · exact ⟨h, List.prefix_refl _⟩

/-- The state file is the first line and the text of the walk over the
globals; where the walk fails, so does the pass. -/
theorem preserveGlobalData_eq (hformat : CStrings format) (slots : Nat) :
    g.preserveGlobalData format r slots =
      (visitTable g slots g.globals [] []).map (fun trace =>
        versionLine g.getPreservationVersion.1 ++
          traceText format r g trace) := by
  have hstart : Written format r g
      (versionLine g.getPreservationVersion.1)
      ⟨versionLine g.getPreservationVersion.1, ascii "_G" ++ [0], []⟩ [] := by
    constructor
    · exact (List.append_nil _).symm
    · intro v _
      trivial
  have hname : NameAt (ascii "_G" ++ [0]) 0 (nameText format r []) :=
    ⟨[], [], rfl, rfl, zero_not_mem_nameText hformat []⟩
  have hagree := serializeTable_follows (r := r) (g := g) hformat slots
    g.globals 0 [] _ [] hstart hname
  unfold LuaGlobals.preserveGlobalData
  cases hwalk : visitTable g slots g.globals [] [] with
  | ok trace =>
      rcases hagree.ok_right hwalk with ⟨data, hdata, hwritten, _⟩
      rw [hdata]
      exact congrArg Except.ok hwritten.file
  | error e =>
      rw [hwalk] at hagree
      cases hpass : serializeTable format r g slots g.globals 0
          ⟨versionLine g.getPreservationVersion.1, ascii "_G" ++ [0], []⟩ with
      | ok data =>
          rw [hpass] at hagree
          exact hagree.elim
      | error e' =>
          rw [hpass] at hagree
          exact congrArg Except.error hagree

end

end Core
end LuaSandbox
