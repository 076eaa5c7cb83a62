import LuaSandbox.Heka.EncodeGrowth
import LuaSandbox.Heka.PayloadTable

/-!
# What an injection does

The state behind each function that hands a message to the host.
-/

namespace LuaSandbox
namespace Heka

open Foundation
open Lua
open Util
open Core

/-!
## States
-/

/-- The state in which an encoder starts. -/
def Injector.start (env : InjectEnv) (s : Injector) : EncState :=
  EncState.start s.lua s.ob env.alloc s.errorMessage

/-- The state behind an encoder. -/
def Injector.encoded (s : Injector) (e : EncState) : Injector :=
  { s with lua := e.lua, ob := e.w.ob, errorMessage := e.errorMessage }

/-- The message in the output buffer. -/
def Injector.message (s : Injector) (rv : Int) : Injected :=
  ⟨s.ob.buf, 0, s.ob.pos, rv⟩

/-- The host has taken the output; an accepted message is counted. -/
def Injector.called (s : Injector) (rv : Int) : Injector :=
  { s with
    ob := s.ob.clear
    injected := s.injected ++ [s.message rv]
    imCnt := if rv = lsbHekaImSuccess then s.imCnt + 1 else s.imCnt
    imBytes :=
      if rv = lsbHekaImSuccess then s.imBytes + s.ob.pos else s.imBytes }

section

variable {env : InjectEnv} {s : Injector} {rv : Int} {args : List Value}

theorem run_callback (rv : Int) (s : Injector) :
    exists r, (callback rv).run s = (r, s.called rv) ∧
      (r = Except.ok () <-> rv = lsbHekaImSuccess) := by
  have htake : lsbGetOutput.run s =
      (Except.ok (s.ob.buf, s.ob.pos), { s with ob := s.ob.clear }) := rfl
  unfold callback
  rw [Computation.run_bind_ok htake, Computation.run_ofFun]
  unfold Injector.called
  by_cases hsuccess : rv = lsbHekaImSuccess
  · rw [if_pos hsuccess, if_pos hsuccess, if_pos hsuccess]
    exact ⟨_, rfl, iff_of_true rfl hsuccess⟩
  · rw [if_neg hsuccess, if_neg hsuccess, if_neg hsuccess]
    split
    · exact ⟨_, rfl, iff_of_false nofun hsuccess⟩
    · exact ⟨_, rfl, iff_of_false nofun hsuccess⟩

theorem run_checktype_ok {index : Nat} {t : LuaType}
    (h : typeAt args index = t) (s : Injector) :
    (checktype args index t).run s = (Except.ok (), s) := by
  unfold checktype
  rw [if_pos h]
  rfl

theorem run_checktype_error {index : Nat} {t : LuaType}
    (h : typeAt args index ≠ t) (s : Injector) :
    exists e, (checktype args index t).run s = (Except.error e, s) := by
  unfold checktype
  rw [if_neg h]
  exact ⟨_, rfl⟩

/-!
## Encoding
-/

theorem run_encoding_ok {x : Enc Unit} {e : EncState}
    (h : x.run (s.start env) = (Except.ok (), e)) :
    (encoding env x).run s = (Except.ok none, s.encoded e) := by
  unfold Injector.start at h
  unfold encoding
  rw [Computation.run_ofFun, h]
  rfl

theorem run_encoding_error {x : Enc Unit} {e : EncState} {stop : Stop}
    (h : x.run (s.start env) = (Except.error stop, e)) :
    exists r, (encoding env x).run s = (r, s.encoded e) ∧
      r ≠ Except.ok none := by
  unfold Injector.start at h
  unfold encoding
  rw [Computation.run_ofFun, h]
  cases stop with
  | err e => exact ⟨_, rfl, nofun⟩
  | raised v => exact ⟨_, rfl, nofun⟩
  | depth => exact ⟨_, rfl, nofun⟩

theorem injectMessage_refused (env : InjectEnv) (rv : Int)
    {args : List Value} (h : typeAt args 1 ≠ LuaType.table) :
    exists e, (injectMessageAnalysis env rv args).run s =
      (Except.error e, s) := by
  rcases run_checktype_error h s with ⟨e, hrun⟩
  exact ⟨e, Computation.run_bind_error hrun⟩

/-- The callback is handed what was encoded. -/
theorem injectMessage_ok (rv : Int) {args : List Value}
    (htable : typeAt args 1 = LuaType.table) {e : EncState}
    (h : (encodeArgument env args).run (s.start env) = (Except.ok (), e)) :
    exists r, (injectMessageAnalysis env rv args).run s =
        (r, (s.encoded e).called rv) ∧
      (r = Except.ok () <-> rv = lsbHekaImSuccess) := by
  unfold injectMessageAnalysis
  rw [Computation.run_bind_ok (run_checktype_ok htable s),
    Computation.run_bind_ok (run_encoding_ok h)]
  exact run_callback rv (s.encoded e)

/-- An encoding that fails leaves what it has written. -/
theorem injectMessage_error (rv : Int) {args : List Value}
    (htable : typeAt args 1 = LuaType.table) {e : EncState} {stop : Stop}
    (h : (encodeArgument env args).run (s.start env) =
      (Except.error stop, e)) :
    exists err, (injectMessageAnalysis env rv args).run s =
      (Except.error err, s.encoded e) := by
  rcases run_encoding_error h with ⟨r, hrun, hne⟩
  unfold injectMessageAnalysis
  rw [Computation.run_bind_ok (run_checktype_ok htable s)]
  rcases r with err | ret
  · exact ⟨err, Computation.run_bind_error hrun⟩
  · cases ret with
    | none => exact absurd rfl hne
    | some e' =>
        rw [Computation.run_bind_ok hrun]
        exact ⟨_, rfl⟩

/-- The arguments with which `encode_message` encodes. -/
def EncodeArguments (args : List Value) : Prop :=
  typeAt args 1 = LuaType.table ∧
    (args.length = 1 ∨ args.length = 2 ∧ typeAt args 2 = LuaType.boolean)

instance (args : List Value) : Decidable (EncodeArguments args) :=
  inferInstanceAs (Decidable (typeAt args 1 = LuaType.table ∧
    (args.length = 1 ∨
      args.length = 2 ∧ typeAt args 2 = LuaType.boolean)))

theorem run_checkEncodeArguments (args : List Value) (s : Injector) :
    exists r, (checkEncodeArguments args).run s = (r, s) ∧
      (r = Except.ok () <-> EncodeArguments args) := by
  unfold checkEncodeArguments EncodeArguments
  by_cases htwo : args.length = 2
  · rw [if_pos htwo]
    by_cases hboolean : typeAt args 2 = LuaType.boolean
    · rw [Computation.run_bind_ok (run_checktype_ok hboolean s)]
      by_cases htable : typeAt args 1 = LuaType.table
      · exact ⟨_, run_checktype_ok htable s,
          iff_of_true rfl ⟨htable, Or.inr ⟨htwo, hboolean⟩⟩⟩
      · rcases run_checktype_error htable s with ⟨e, hrun⟩
        exact ⟨_, hrun, iff_of_false nofun (fun h => htable h.1)⟩
    · rcases run_checktype_error hboolean s with ⟨e, hrun⟩
      refine ⟨_, Computation.run_bind_error hrun, iff_of_false nofun ?_⟩
      rintro ⟨_, hone | h⟩
      · rw [hone] at htwo
        cases htwo
      · exact hboolean h.2
  · rw [if_neg htwo]
    by_cases hone : args.length = 1
    · rw [if_pos hone]
      by_cases htable : typeAt args 1 = LuaType.table
      · exact ⟨_, run_checktype_ok htable s,
          iff_of_true rfl ⟨htable, Or.inl hone⟩⟩
      · rcases run_checktype_error htable s with ⟨e, hrun⟩
        exact ⟨_, hrun, iff_of_false nofun (fun h => htable h.1)⟩
    · rw [if_neg hone]
      refine ⟨_, rfl, iff_of_false nofun ?_⟩
      rintro ⟨_, h | h⟩
      · exact hone h
      · exact htwo h.1

theorem encodeMessage_refused (env : InjectEnv) (h : ¬ EncodeArguments args) :
    exists e, (hekaEncodeMessage env args).run s = (Except.error e, s) := by
  rcases run_checkEncodeArguments args s with ⟨r, hrun, hiff⟩
  rcases r with e | u
  · exact ⟨e, Computation.run_bind_error hrun⟩
  · exact absurd (hiff.mp rfl) h

/-- The encoded message is the result, and leaves the buffer. -/
theorem encodeMessage_ok (hargs : EncodeArguments args) {e : EncState}
    (h : (encodeArgument env args).run (s.start env) = (Except.ok (), e)) :
    (hekaEncodeMessage env args).run s =
      (Except.ok ((if (args.getD 1 Value.nil).toboolean then
          lsbWriteHekaHeader e.w.ob.pos else []) ++ e.w.ob.contents),
        { s.encoded e with ob := e.w.ob.clear }) := by
  rcases run_checkEncodeArguments args s with ⟨r, hrun, hiff⟩
  rw [hiff.mpr hargs] at hrun
  unfold hekaEncodeMessage
  rw [Computation.run_bind_ok hrun,
    Computation.run_bind_ok (run_encoding_ok h)]
  rfl

theorem encodeMessage_error (hargs : EncodeArguments args) {e : EncState}
    {stop : Stop}
    (h : (encodeArgument env args).run (s.start env) =
      (Except.error stop, e)) :
    exists err, (hekaEncodeMessage env args).run s =
      (Except.error err, s.encoded e) := by
  rcases run_checkEncodeArguments args s with ⟨r, hrun, hiff⟩
  rw [hiff.mpr hargs] at hrun
  rcases run_encoding_error h with ⟨r', hencoding, hne⟩
  unfold hekaEncodeMessage
  rw [Computation.run_bind_ok hrun]
  rcases r' with err | ret
  · exact ⟨err, Computation.run_bind_error hencoding⟩
  · cases ret with
    | none => exact absurd rfl hne
    | some e' =>
        rw [Computation.run_bind_ok hencoding]
        exact ⟨_, rfl⟩

/-!
## Text
-/

/-- The texts that find room behind the contents. -/
def acceptedTexts (env : InjectEnv) (s : Injector) (args : List Value) :
    List (List UInt8) :=
  accepted env.encode.plugin env.format s.lua s.ob.capacity s.ob.pos args

/-- The output function changes nothing but the buffer, to which it adds the
accepted texts. -/
theorem run_output (halloc : forall n, env.alloc n = true) (start : Nat)
    (args : List Value) (s : Injector) :
    exists r ob, (output env start args).run s = (r, { s with ob := ob }) ∧
      ob.contents = s.ob.contents ++ (acceptedTexts env s args).flatten ∧
      ob.maxsize = s.ob.maxsize ∧
      (r = Except.ok () <->
        (acceptedTexts env s args).length = args.length) := by
  have houtputs := lsbOutputCoroutine_outputs env.encode.plugin env.format
    s.lua (s := ⟨s.ob, env.alloc, []⟩) s.errorMessage start args halloc
  rcases houtputs with ⟨r, t, hrun, hcontents, hmaxsize, hall⟩
  refine ⟨r, t.ob, ?_, hcontents, hmaxsize, hall⟩
  unfold output
  rw [Computation.run_ofFun, hrun]

/-- The names of a payload that the arguments give. -/
inductive PayloadNames : List Value -> List UInt8 ->
    Option (List UInt8) -> Prop where
  | none : PayloadNames [] (ascii "txt") none
  | type {type} : PayloadNames [Value.string type] type Option.none
  | both {type name rest} :
      PayloadNames (Value.string type :: Value.string name :: rest) type
        (some name)

def ValidNames (args : List Value) : Prop :=
  (0 < args.length -> typeAt args 1 = LuaType.string) ∧
    (1 < args.length -> typeAt args 2 = LuaType.string)

instance (args : List Value) : Decidable (ValidNames args) :=
  inferInstanceAs (Decidable
    ((0 < args.length -> typeAt args 1 = LuaType.string) ∧
      (1 < args.length -> typeAt args 2 = LuaType.string)))

theorem type_eq_string {v : Value} (h : v.type = LuaType.string) :
    exists s, v = Value.string s := by
  cases v with
  | string s => exact ⟨s, rfl⟩
  | nil | boolean | lightuserdata | number | table | function | cfunction
  | userdata | thread => cases h

theorem validNames_iff :
    ValidNames args <-> exists type name, PayloadNames args type name := by
  constructor
  · rintro ⟨hfirst, hsecond⟩
    rcases args with _ | ⟨v, _ | ⟨w, rest⟩⟩
    · exact ⟨_, _, PayloadNames.none⟩
    · rcases type_eq_string (hfirst Nat.one_pos) with ⟨type, rfl⟩
      exact ⟨_, _, PayloadNames.type⟩
    · rcases type_eq_string (hfirst (Nat.succ_pos _)) with ⟨type, rfl⟩
      rcases type_eq_string (hsecond (Nat.succ_lt_succ (Nat.succ_pos _)))
        with ⟨name, rfl⟩
      exact ⟨_, _, PayloadNames.both⟩
  · rintro ⟨type, name, hnames⟩
    cases hnames with
    | none => exact ⟨nofun, nofun⟩
    | type => exact ⟨fun _ => rfl, fun h => absurd h (Nat.lt_irrefl 1)⟩
    | both => exact ⟨fun _ => rfl, fun _ => rfl⟩

theorem run_checkNames (args : List Value) (s : Injector) :
    exists r, (checkNames args).run s = (r, s) ∧
      (r = Except.ok () <-> ValidNames args) := by
  unfold checkNames
  by_cases hfirst : 0 < args.length ∧ typeAt args 1 ≠ LuaType.string
  · rw [if_pos hfirst]
    exact ⟨_, rfl, iff_of_false nofun (fun h => hfirst.2 (h.1 hfirst.1))⟩
  rw [if_neg hfirst]
  by_cases hsecond : 1 < args.length ∧ typeAt args 2 ≠ LuaType.string
  · rw [if_pos hsecond]
    exact ⟨_, rfl, iff_of_false nofun (fun h => hsecond.2 (h.2 hsecond.1))⟩
  rw [if_neg hsecond]
  exact ⟨_, rfl, iff_of_true rfl
    ⟨fun h => not_not.mp (fun hne => hfirst ⟨h, hne⟩),
      fun h => not_not.mp (fun hne => hsecond ⟨h, hne⟩)⟩⟩

/-- The arguments that are text. -/
def textArguments (args : List Value) : List Value := args.drop 2

theorem run_outputRest (halloc : forall n, env.alloc n = true)
    (args : List Value) (s : Injector) :
    exists r ob, (outputRest env args).run s = (r, { s with ob := ob }) ∧
      ob.contents =
        s.ob.contents ++ (acceptedTexts env s (textArguments args)).flatten ∧
      ob.maxsize = s.ob.maxsize ∧
      (r = Except.ok () <-> (acceptedTexts env s (textArguments args)).length =
        (textArguments args).length) := by
  unfold outputRest textArguments
  split
  · exact run_output halloc 3 (args.drop 2) s
  · rename_i hshort
    rw [List.drop_of_length_le (Nat.le_of_not_lt hshort)]
    exact ⟨Except.ok (), s.ob, rfl, (List.append_nil _).symm, rfl,
      iff_of_true rfl rfl⟩

/-!
## Payloads
-/

/-- The message of a payload fits the buffer. -/
def PayloadFits (env : InjectEnv) (ob : OutputBuffer) (type : List UInt8)
    (name : Option (List UInt8)) (payload : List UInt8) : Prop :=
  (payloadContent env.encode env.cfg type name payload).piece.need <=
    ob.capacity

/-- The key of the timestamp and the type alone take 17 bytes. -/
theorem payloadRecords_length (env : InjectEnv) (type : List UInt8)
    (name : Option (List UInt8)) (payload : List UInt8) :
    17 <= (payloadContent env.encode env.cfg type name
      payload).records.bytes.length := by
  have htype : (optionalString lsbPbType
      (payloadContent env.encode env.cfg type name payload).type).bytes.length =
        16 := by
    change (optionalString lsbPbType
      (some (ascii "inject_payload"))).bytes.length = 16
    decide
  have hkey : (Piece.key lsbPbTimestamp lsbPbWtVarint).bytes.length = 1 := rfl
  unfold MessageContent.records intPiece
  simp only [Piece.bytes_append, List.length_append]
  omega

/-- Where there is no room for a uuid there is none for the rest of the message
of a payload. -/
theorem payload_not_withoutUuid {type : List UInt8}
    {name : Option (List UInt8)} {payload : List UInt8} {c : WriteState}
    (hpos : c.ob.pos = 0)
    (hfull : ¬ Fits (MessageContent.uuidPiece (payloadContent env.encode
      env.cfg type name payload).uuid) c) :
    ¬ Fits ((payloadContent env.encode env.cfg type name payload).records ++
      Piece.room 1) c := by
  have hlength := payloadRecords_length env type name payload
  have huuid := uuidRecord_length env.encode.random none
  have hneed : (MessageContent.uuidPiece (payloadContent env.encode env.cfg
      type name payload).uuid).need = 18 := huuid
  unfold Fits at hfull ⊢
  rw [Piece.need_append]
  have hroom : (Piece.room 1).need = 1 := rfl
  omega

theorem PayloadNames.values {type : List UInt8}
    {name : Option (List UInt8)} (h : PayloadNames args type name) :
    args.headD defaultType = Value.string type ∧
      args[1]? = name.map Value.string := by
  cases h with
  | none => exact ⟨rfl, rfl⟩
  | type => exact ⟨rfl, rfl⟩
  | both => exact ⟨rfl, rfl⟩

theorem payloadFields_nonempty (type : List UInt8)
    (name : Option (List UInt8)) :
    forall c, c ∈ payloadFields type name -> c.values.Nonempty := by
  intro c hc
  rcases List.mem_cons.mp hc with rfl | hc
  · exact List.cons_ne_nil _ _
  · cases name with
    | none => cases hc
    | some s =>
        cases List.mem_singleton.mp hc
        exact List.cons_ne_nil _ _

theorem fits_cleared_iff {type : List UInt8} {name : Option (List UInt8)}
    {payload : List UInt8} {e : EncState} :
    Fits (payloadContent env.encode env.cfg type name payload).piece
        (cleared e).w <-> PayloadFits env e.w.ob type name payload := by
  have hcapacity : (cleared e).w.ob.capacity = e.w.ob.capacity := rfl
  unfold Fits PayloadFits
  rw [hcapacity]
  change 0 + _ <= _ <-> _
  rw [Nat.zero_add]

/-- What happens to a text that is put into a message. -/
theorem injectTable_outcome (rv : Int) (hfuel : 3 <= env.fuel)
    (halloc : forall n, env.alloc n = true) (new : NewTables)
    {type : List UInt8} {name : Option (List UInt8)} (payload : List UInt8)
    (hnames : PayloadNames args type name) (s : Injector) :
    exists e, e.w.ob.maxsize = s.ob.maxsize ∧
      ((PayloadFits env s.ob type name payload ∧
          ((injectTable env rv new args payload).run s).2 =
            (s.encoded e).called rv ∧
          exists hm, HoldsMessage e.w.ob.buf hm
              (payloadContent env.encode env.cfg type name payload) ∧
            lsbDecodeHekaMessage e.w.ob.buf 0 e.w.ob.pos = (true, hm)) ∨
        (¬ PayloadFits env s.ob type name payload ∧
          ((injectTable env rv new args payload).run s).2 = s.encoded e)) := by
  let args' := Value.table new.message :: (args.drop 1).take 1
  let s1 : Injector := { s with
    lua := payloadTable s.lua new (Value.string type)
      (name.map Value.string) payload }
  have hset : (injectTable env rv new args payload).run s =
      (injectMessageAnalysis env rv args').run s1 := by
    unfold injectTable
    rw [hnames.values.1, hnames.values.2]
    exact Computation.run_bind_ok rfl
  have houtcome := payload_outcome env.encode env.cfg (s := s1.start env)
    hfuel (args'.getLastD Value.nil) s.lua rfl
  have hmaxsize : ((encodeArgument env args').run
      (s1.start env)).2.w.ob.maxsize = s.ob.maxsize :=
    hekaEncodeMessageTable_maxsize
  change MessageOutcome _ _ _ _ ((encodeArgument env args').run _) at houtcome
  generalize hrun : (encodeArgument env args').run (s1.start env) = r
    at houtcome hmaxsize
  rcases r with ⟨result, e⟩
  refine ⟨e, hmaxsize, ?_⟩
  rw [hset]
  cases houtcome with
  | whole hlua hemitted hfits =>
      have htable : typeAt args' 1 = LuaType.table := rfl
      rcases injectMessage_ok rv htable hrun with ⟨r, hcall, _⟩
      rcases OutputBuffer.contents_eq_iff.mp (contents_of_emitted hemitted)
        with ⟨hpos, hbytes⟩
      rcases lsbDecodeHekaMessage_of_bytesAt
        (payloadFields_nonempty type name) (fits_piece_lt hfits) hbytes with
        ⟨hm, hholds, hdecode⟩
      rw [← hpos] at hdecode
      rw [hcall]
      exact Or.inl ⟨fits_cleared_iff.mp hfits, rfl, hm, hholds, hdecode⟩
  | withoutUuid _ _ _ hfits hfull =>
      exact absurd hfits (payload_not_withoutUuid rfl hfull)
  | empty _ _ hfull =>
      have htable : typeAt args' 1 = LuaType.table := rfl
      rcases injectMessage_error rv htable hrun with ⟨err, hcall⟩
      rw [hcall]
      exact Or.inr ⟨fun hfits => hfull (fits_uuid_of_fits
        (fits_cleared_iff.mpr hfits)), rfl⟩
  | failed hfull =>
      have htable : typeAt args' 1 = LuaType.table := rfl
      rcases injectMessage_error rv htable hrun with ⟨err, hcall⟩
      rw [hcall]
      exact Or.inr ⟨fun hfits => hfull halloc (fits_cleared_iff.mpr hfits),
        rfl⟩

/-- How `inject_payload` ends with valid names: a text is refused, there is no
text, the message is handed to the host, or it does not fit and the text is
lost. -/
inductive PayloadOutcome (env : InjectEnv) (s : Injector) (rv : Int)
    (type : List UInt8) (name : Option (List UInt8)) (args : List Value)
    (payload : List UInt8) : Injector -> Prop where
  | refused {ob} :
      (acceptedTexts env s args).length ≠ args.length ->
      ob.contents = payload ->
      ob.maxsize = s.ob.maxsize ->
      PayloadOutcome env s rv type name args payload { s with ob := ob }
  | nothing {ob} :
      (acceptedTexts env s args).length = args.length ->
      payload = [] ->
      ob.contents = [] ->
      ob.maxsize = s.ob.maxsize ->
      PayloadOutcome env s rv type name args payload { s with ob := ob }
  | delivered {e hm} :
      (acceptedTexts env s args).length = args.length ->
      payload ≠ [] ->
      PayloadFits env s.ob type name payload ->
      HoldsMessage e.w.ob.buf hm
        (payloadContent env.encode env.cfg type name payload) ->
      lsbDecodeHekaMessage e.w.ob.buf 0 e.w.ob.pos = (true, hm) ->
      e.w.ob.maxsize = s.ob.maxsize ->
      PayloadOutcome env s rv type name args payload
        ((s.encoded e).called rv)
  | lost {e} :
      (acceptedTexts env s args).length = args.length ->
      payload ≠ [] ->
      ¬ PayloadFits env s.ob type name payload ->
      e.w.ob.maxsize = s.ob.maxsize ->
      PayloadOutcome env s rv type name args payload
        (s.encoded e)

theorem payloadFits_congr {ob ob' : OutputBuffer} {type : List UInt8}
    {name : Option (List UInt8)} {payload : List UInt8}
    (h : ob'.maxsize = ob.maxsize) :
    PayloadFits env ob' type name payload <->
      PayloadFits env ob type name payload := by
  unfold PayloadFits
  rw [OutputBuffer.capacity_congr h]

/-- `inject_payload` without valid names does nothing. -/
theorem injectPayload_refused (env : InjectEnv) (rv : Int) (new : NewTables)
    (h : ¬ ValidNames args) (s : Injector) :
    ((injectPayload env rv new args).run s).2 = s := by
  rcases run_checkNames args s with ⟨r, hrun, hiff⟩
  rcases r with e | u
  · unfold injectPayload
    rw [Computation.run_bind_error hrun]
  · exact absurd (hiff.mp rfl) h

theorem injectPayload_outcome (rv : Int) (hfuel : 3 <= env.fuel)
    (halloc : forall n, env.alloc n = true) (new : NewTables)
    {type : List UInt8} {name : Option (List UInt8)}
    (hnames : PayloadNames args type name) (s : Injector) :
    PayloadOutcome env s rv type name (textArguments args)
      (s.ob.contents ++ (acceptedTexts env s (textArguments args)).flatten)
      ((injectPayload env rv new args).run s).2 := by
  rcases run_checkNames args s with ⟨r, hcheck, hvalid⟩
  rw [hvalid.mpr (validNames_iff.mpr ⟨type, name, hnames⟩)] at hcheck
  rcases run_outputRest halloc args s with
    ⟨r', ob, hrest, hcontents, hmaxsize, hall⟩
  unfold injectPayload
  rw [Computation.run_bind_ok hcheck]
  rw [← hcontents]
  rcases r' with err | u
  · rw [Computation.run_bind_error hrest]
    exact PayloadOutcome.refused (fun h => nomatch hall.mpr h) rfl hmaxsize
  have htake : lsbGetOutput.run { s with ob := ob } =
      (Except.ok (ob.buf, ob.pos), { s with ob := ob.clear }) := rfl
  have hlength := hall.mp rfl
  rw [Computation.run_bind_ok hrest, Computation.run_bind_ok htake]
  dsimp only
  by_cases hpos : ob.pos = 0
  · rw [if_pos hpos]
    have hnil : ob.contents = [] := by
      rw [← List.length_eq_zero_iff, ob.length_contents, hpos]
    exact PayloadOutcome.nothing hlength hnil rfl hmaxsize
  rw [if_neg hpos]
  have hne : ob.contents ≠ [] := by
    intro hnil
    apply hpos
    rw [← ob.length_contents, hnil]
    rfl
  have htable := injectTable_outcome rv hfuel halloc new ob.contents hnames
    { s with ob := ob.clear }
  rcases htable with ⟨e, hlimit, ⟨hfits, hrun, hm, hholds, hdecode⟩ |
    ⟨hfull, hrun⟩⟩
  · have hrun' : ((injectTable env rv new args (ob.buf.bytes 0 ob.pos)).run
        { s with ob := ob.clear }).2 = (s.encoded e).called rv := hrun
    rw [hrun']
    exact PayloadOutcome.delivered hlength hne
      ((payloadFits_congr hmaxsize).mp hfits) hholds hdecode
      (hlimit.trans hmaxsize)
  · have hrun' : ((injectTable env rv new args (ob.buf.bytes 0 ob.pos)).run
        { s with ob := ob.clear }).2 = s.encoded e := hrun
    rw [hrun']
    exact PayloadOutcome.lost hlength hne
      (fun hfits => hfull ((payloadFits_congr hmaxsize).mpr hfits))
      (hlimit.trans hmaxsize)

end

end Heka
end LuaSandbox
