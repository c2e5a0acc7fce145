import Mathlib.Algebra.Order.BigOperators.Group.Finset
import Mathlib.Data.Fintype.BigOperators
import TokenizersCpp.RawRwkv
import TokenizersCpp.RawTokenizer

/-!
# Programs over the C++ interface

A program has some `std::unique_ptr<Tokenizer>` variables.  It stores what the factories
return in them, moves and resets them, and calls the objects behind them (`run`, over the
memory of `RawMemory`).

For its users an object is a function from calls to answers, fixed when it is made
(`Meaning`).  The programs over such functions (`Spec.run`) know no memory, no scratch
string and no handle.  The two agree on every program (`program_refines`): on each reply,
and on whether it goes on, for the only fault is a call through a null pointer.  At each
point memory holds what the live objects own, the arrays that RWKV constructors left
behind, and nothing else (`memory_left`).
-/

namespace TokenizersCpp

open Separation Separation.Assn
open Raw.RWKVWorldTokenizer (Arrays arrays_nil arrays_append)

namespace Session

/-! ## Calls -/

/-- The calls of `Tokenizer`.  `Encode(text)` and `EncodeBatch(texts)` are the calls with
the default options. -/
inductive Call
  | encode (text : Bytes) (options : EncodeOptions)
  | encodeBatch (texts : List Bytes) (options : EncodeOptions)
  | decode (ids : List Int32)
  | decodeSkipping (ids : List Int32) (skipSpecialTokens : Bool)
  | getVocabSize
  | idToToken (id : Int32)
  | tokenToId (token : Bytes)

/-- What a call returns or throws. -/
inductive Answer
  | ids (outcome : Except CppException (List Int32))
  | batch (outcome : Except CppException (List (List Int32)))
  | text (outcome : Except CppException Bytes)
  | size (outcome : Except CppException Nat)
  | id (outcome : Except CppException Int32)

/-- What an object is for its users. -/
abbrev Meaning := Call → Answer

/-- `size_t` from `int`. -/
def sizeOfInt (n : Int32) : Nat := n.toInt64.toUInt64.toNat

variable (b : Build)

/-- A SentencePiece object. -/
def ofSentencePiece (t : SentencePieceTokenizer b.lib) : Meaning
  | .encode text options => .ids
      (validateEncodeOptions options false >>= fun _ => t.encodeImpl text options)
  | .encodeBatch texts options => .batch
      (validateEncodeOptions options false >>= fun _ =>
        texts.mapM fun text => t.encodeImpl text options)
  | .decode ids => .text (.ok (t.decode ids))
  | .decodeSkipping ids _ => .text (.ok (t.decode ids))
  | .getVocabSize => .size (.ok (sizeOfInt t.getVocabSize))
  | .idToToken id => .text (.ok (t.idToToken id))
  | .tokenToId token => .id (.ok (t.tokenToId token))

/-- An RWKV object. -/
def ofRwkvWorld (t : RWKVWorldTokenizer) : Meaning
  | .encode text options => .ids
      (validateEncodeOptions options false >>= fun _ => t.encodeImpl b.cs text options)
  | .encodeBatch texts options => .batch
      (validateEncodeOptions options false >>= fun _ =>
        texts.mapM fun text => t.encodeImpl b.cs text options)
  | .decode ids => .text (t.decode ids)
  | .decodeSkipping ids _ => .text (t.decode ids)
  | .getVocabSize => .size t.getVocabSize
  | .idToToken id => .text (t.idToToken id)
  | .tokenToId token => .id (t.tokenToId token)

/-- A Hugging Face object, by what was loaded. -/
def ofLoad (load : Raw.Load b.crates) (supportsEncodeFlags : Bool) : Meaning :=
  let t : HFTokenizer b.crates := ⟨Raw.asHandle (some load), supportsEncodeFlags⟩
  fun
  | .encode text options => .ids
      (validateEncodeOptions options supportsEncodeFlags >>= fun _ => t.encodeOutcome text options)
  | .encodeBatch texts options => .batch
      (validateEncodeOptions options supportsEncodeFlags >>= fun _ =>
        t.encodeBatchOutcome texts options)
  | .decode ids => .text (.ok
      (strBytes (load.wrapper.decodedText (ids.map Int32.toUInt32) false)))
  | .decodeSkipping ids skipSpecialTokens => .text (.ok
      (strBytes (load.wrapper.decodedText (ids.map Int32.toUInt32) skipSpecialTokens)))
  | .getVocabSize => .size (.ok t.getVocabSize)
  | .idToToken id => .text (.ok (strBytes (load.wrapper.tokenText id.toUInt32)))
  | .tokenToId token => .id (.ok (t.tokenToId token))

/-! ## Objects -/

/-- `Tokenizer`, by its concrete class. -/
inductive Object
  | huggingFace (t : Raw.HFTokenizer)
  | sentencePiece (t : SentencePieceTokenizer b.lib)
  | rwkvWorld (t : RWKVWorldTokenizer)

variable {b}

/-- A call of a backend, behind the validation of the options. -/
def validated {α : Type} (options : EncodeOptions) (supportsEncodeFlags : Bool)
    (impl : Raw.Prog b.crates (Except CppException α)) :
    Raw.Prog b.crates (Except CppException α) :=
  match validateEncodeOptions options supportsEncodeFlags with
  | .error e => return .error e
  | .ok () => impl

namespace Object

/-- A call of an object.  The backends without memory in Rust leave the ledger alone. -/
def call : Object b → Call → Raw.Prog b.crates Answer
  | .huggingFace t, .encode text options => do
      let outcome ← validated options t.supportsEncodeFlags (t.encodeImpl text options)
      return .ids outcome
  | .huggingFace t, .encodeBatch texts options => do
      let outcome ← validated options t.supportsEncodeFlags (t.encodeBatchImpl texts options)
      return .batch outcome
  | .huggingFace t, .decode ids => do
      let text ← t.decode ids false
      return .text (.ok text)
  | .huggingFace t, .decodeSkipping ids skipSpecialTokens => do
      let text ← t.decode ids skipSpecialTokens
      return .text (.ok text)
  | .huggingFace t, .getVocabSize => do
      let size ← t.getVocabSize
      return .size (.ok size)
  | .huggingFace t, .idToToken id => do
      let text ← t.idToToken id
      return .text (.ok text)
  | .huggingFace t, .tokenToId token => do
      let id ← t.tokenToId token
      return .id (.ok id)
  | .sentencePiece t, .encode text options =>
      let t : Tokenizer b.crates b.lib := .sentencePiece t
      return .ids (t.encode b.cs text options Ledger.initial).1
  | .sentencePiece t, .encodeBatch texts options =>
      let t : Tokenizer b.crates b.lib := .sentencePiece t
      return .batch (t.encodeBatch b.cs texts options Ledger.initial).1
  | .sentencePiece t, call => return ofSentencePiece b t call
  | .rwkvWorld t, .encode text options =>
      let t : Tokenizer b.crates b.lib := .rwkvWorld t
      return .ids (t.encode b.cs text options Ledger.initial).1
  | .rwkvWorld t, .encodeBatch texts options =>
      let t : Tokenizer b.crates b.lib := .rwkvWorld t
      return .batch (t.encodeBatch b.cs texts options Ledger.initial).1
  | .rwkvWorld t, call => return ofRwkvWorld b t call

/-- The virtual destructor. -/
def destroy : Object b → Raw.Prog b.crates Unit
  | .huggingFace t => t.destroy
  | .sentencePiece _ => return ()
  | .rwkvWorld _ => return ()

end Object

/-- A factory with its arguments, and with what is decided outside the program: whether an
allocation throws, what the file at the path of an RWKV model holds, if it can be opened,
and how the hash maps are iterated. -/
inductive Model
  | json (newFails : Bool) (json : Bytes)
  | byteLevelBPE (newFails : Bool) (vocab merges addedTokens : Bytes)
  | sentencePiece (modelBlob : Bytes)
  | rwkvWorld (newFails : Bool) (file : Option Bytes) (orders : Orders)

variable (mp : Msgpack b)

/-- The call of a factory; `none` is a null pointer. -/
def Model.make : Model → Raw.Prog b.crates (Except CppException (Option (Object b)))
  | .json newFails blob => do
      let outcome ← Raw.HFTokenizer.fromBlobJSON newFails blob
      return outcome.map fun t => some (.huggingFace t)
  | .byteLevelBPE newFails vocab merges addedTokens => do
      let outcome ← Raw.HFTokenizer.fromBlobByteLevelBPE newFails vocab merges addedTokens
      return outcome.map fun t => some (.huggingFace t)
  | .sentencePiece modelBlob =>
      return .ok ((fromBlobSentencePiece b modelBlob).map Object.sentencePiece)
  | .rwkvWorld newFails file orders => do
      let outcome ← Raw.RWKVWorldTokenizer.construct mp newFails file orders
      return outcome.map fun t => some (.rwkvWorld t)

/-- The arrays that a factory leaves behind. -/
def Model.leaked : Model → List Bytes
  | .rwkvWorld newFails file _ => Raw.RWKVWorldTokenizer.leaked mp newFails file
  | _ => []

/-! ## Programs -/

variable {Var : Type} [DecidableEq Var]

/-- One step of a program over the variables. -/
inductive Command (Var : Type)
  /-- `v = Tokenizer::From...(...)`. -/
  | make (v : Var) (model : Model)
  /-- `v->call(...)`. -/
  | call (v : Var) (call : Call)
  /-- `v.reset()`. -/
  | reset (v : Var)
  /-- `v = std::move(w)`. -/
  | move (v w : Var)

/-- What a program sees of a step: whether the factory returned an object, or the answer. -/
inductive Reply
  | made (outcome : Except CppException Bool)
  | answer (answer : Answer)
  | done

/-- The deleter of a `unique_ptr`. -/
def destroyOld : Option (Object b) → Raw.Prog b.crates Unit
  | none => return ()
  | some o => o.destroy

/-- One step over memory.  A variable that is assigned first gives up its old object. -/
def step (vars : Var → Option (Object b)) :
    Command Var → Raw.Prog b.crates (Reply × (Var → Option (Object b)))
  | .make v model => do
      match ← model.make mp with
      | .error e => return (.made (.error e), vars)
      | .ok o => do
          destroyOld (vars v)
          return (.made (.ok o.isSome), Function.update vars v o)
  | .call v call =>
      match vars v with
      | none => Prog.fault
      | some o => do
          let answer ← o.call call
          return (.answer answer, vars)
  | .reset v => do
      destroyOld (vars v)
      return (.done, Function.update vars v none)
  | .move v w => do
      -- `v.reset(w.release())`, so a variable that is moved to itself keeps its object
      let released := Function.update vars w none
      destroyOld (released v)
      return (.done, Function.update released v (vars w))

/-- A program over memory. -/
def run : List (Command Var) → (Var → Option (Object b)) →
    Raw.Prog b.crates (List Reply × (Var → Option (Object b)))
  | [], vars => return ([], vars)
  | command :: commands, vars => do
      let (reply, vars) ← step mp vars command
      let (replies, vars) ← run commands vars
      return (reply :: replies, vars)

/-- The arrays that a step leaves behind. -/
def Command.leaked : Command Var → List Bytes
  | .make _ model => model.leaked mp
  | _ => []

/-- The arrays that a program leaves behind. -/
def leaked (commands : List (Command Var)) : List Bytes := commands.flatMap (Command.leaked mp)

namespace Spec

/-- What a factory makes. -/
def make (b : Build) : Model → Except CppException (Option Meaning)
  | .json newFails json =>
      (Raw.HFTokenizer.made newFails do
        let json ← inputStr b.crates.utf8Error (some json) json.length "Tokenizer JSON"
        TokenizerWrapper.fromStr b.crates json).map fun load => some (ofLoad b load true)
  | .byteLevelBPE newFails vocab merges addedTokens =>
      (Raw.HFTokenizer.made newFails do
        let vocab ← inputStr b.crates.utf8Error (some vocab) vocab.length "BPE vocabulary"
        let merges ← inputStr b.crates.utf8Error (some merges) merges.length "BPE merges"
        let addedTokens ← inputStr b.crates.utf8Error (some addedTokens) addedTokens.length
          "BPE added-token map"
        TokenizerWrapper.byteLevelBpeFromStr b.crates vocab merges addedTokens).map
          fun load => some (ofLoad b load false)
  | .sentencePiece modelBlob => .ok ((fromBlobSentencePiece b modelBlob).map (ofSentencePiece b))
  | .rwkvWorld newFails file orders =>
      (RWKVWorldTokenizer.made b newFails file orders).map fun t => some (ofRwkvWorld b t)

/-- One step of a program whose variables hold meanings. -/
def step (b : Build) (vars : Var → Option Meaning) :
    Command Var → Option (Reply × (Var → Option Meaning))
  | .make v model =>
      match make b model with
      | .error e => some (.made (.error e), vars)
      | .ok o => some (.made (.ok o.isSome), Function.update vars v o)
  | .call v call => (vars v).map fun meaning => (.answer (meaning call), vars)
  | .reset v => some (.done, Function.update vars v none)
  | .move v w => some (.done, Function.update (Function.update vars w none) v (vars w))

/-- Such a program; `none` is a call through a null pointer. -/
def run (b : Build) : List (Command Var) → (Var → Option Meaning) →
    Option (List Reply × (Var → Option Meaning))
  | [], vars => some ([], vars)
  | command :: commands, vars => do
      let (reply, vars) ← step b vars command
      let (replies, vars) ← run b commands vars
      return (reply :: replies, vars)

end Spec

/-! ## What is in memory -/

/-- The object has this meaning, and this is all that it owns. -/
def ObjectAt : Object b → Meaning → Raw.Assn b.crates
  | .huggingFace t, meaning => ex fun load =>
      fact (meaning = ofLoad b load t.supportsEncodeFlags) * Raw.HandleAt t.handle (some load)
  | .sentencePiece t, meaning => fact (meaning = ofSentencePiece b t)
  | .rwkvWorld t, meaning => fact (meaning = ofRwkvWorld b t)

/-- The same of a pointer, which may be null. -/
def PointerAt : Option (Object b) → Option Meaning → Raw.Assn b.crates
  | none, none => 1
  | some o, some meaning => ObjectAt o meaning
  | _, _ => fact False

/-- The same of all variables. -/
def VarsAt [Fintype Var] (vars : Var → Option (Object b)) (meanings : Var → Option Meaning) :
    Raw.Assn b.crates :=
  ∏ v, PointerAt (vars v) (meanings v)

section Objects

theorem validated_spec {α : Type} {options : EncodeOptions} {supportsEncodeFlags : Bool}
    {impl : Raw.Prog b.crates (Except CppException α)} {outcome : Except CppException α}
    {P : Raw.Assn b.crates} (himpl : Triple P impl fun result => fact (result = outcome) * P) :
    Triple P (validated options supportsEncodeFlags impl) fun result =>
      fact (result = validateEncodeOptions options supportsEncodeFlags >>= fun _ => outcome) *
        P := by
  rw [validated]
  cases validateEncodeOptions options supportsEncodeFlags with
  | error e => exact Triple.ret_eq
  | ok u => exact himpl

/-- An answer that a method on a live handle computes. -/
theorem answered {α : Type} {t : Raw.HFTokenizer} {load : Raw.Load b.crates}
    {method : Raw.Prog b.crates α} {a : α} (answer : α → Answer)
    (h : Triple (Raw.HandleAt t.handle (some load)) method fun result =>
      fact (result = a) * Raw.HandleAt t.handle (some load)) :
    Triple (Raw.HandleAt t.handle (some load)) (method >>= fun result => pure (answer result))
      fun result => fact (result = answer a) *
        ObjectAt (.huggingFace t) (ofLoad b load t.supportsEncodeFlags) :=
  h.bind_eq (Triple.ret_of (le_fact_mul rfl (le_ex load (le_fact_mul rfl (le_refl _)))))

/-- **A call** answers as the meaning of the object says, and keeps it. -/
theorem Object.call_spec (haligned : b.crates.BatchAligned) {o : Object b} {meaning : Meaning}
    (call : Call) :
    Triple (ObjectAt o meaning) (o.call call) fun answer =>
      fact (answer = meaning call) * ObjectAt o meaning := by
  cases o with
  | huggingFace t =>
    refine Triple.of_ex fun load => Triple.of_fact fun hmeaning => ?_
    subst hmeaning
    cases call with
    | encode text options =>
      exact answered Answer.ids (validated_spec (Raw.HFTokenizer.encodeImpl_spec text options))
    | encodeBatch texts options =>
      exact answered Answer.batch
        (validated_spec (Raw.HFTokenizer.encodeBatchImpl_spec haligned texts options))
    | decode ids =>
      exact answered (fun text => .text (.ok text)) (Raw.HFTokenizer.decode_spec ids false)
    | decodeSkipping ids skip =>
      exact answered (fun text => .text (.ok text)) (Raw.HFTokenizer.decode_spec ids skip)
    | getVocabSize =>
      exact answered (fun size => .size (.ok size)) Raw.HFTokenizer.getVocabSize_spec
    | idToToken id =>
      exact answered (fun text => .text (.ok text)) (Raw.HFTokenizer.idToToken_spec id)
    | tokenToId token =>
      exact answered (fun id => .id (.ok id)) (Raw.HFTokenizer.tokenToId_spec token)
  | sentencePiece t =>
    refine Triple.of_fact_only fun hmeaning => ?_
    subst hmeaning
    have hanswer : ∀ a, a = ofSentencePiece b t call → Triple (1 : Raw.Assn b.crates) (pure a)
        fun answer => fact (answer = ofSentencePiece b t call) *
          ObjectAt (.sentencePiece t) (ofSentencePiece b t) := fun a ha =>
      Triple.ret_of (le_fact_mul ha (le_of_eq (fact_of rfl).symm))
    cases call with
    | encode text options =>
      exact hanswer _ (congrArg Answer.ids (Tokenizer.encode_fst ..))
    | encodeBatch texts options =>
      exact hanswer _ (congrArg Answer.batch (Tokenizer.encodeBatch_fst _ haligned ..))
    | _ => exact hanswer _ rfl
  | rwkvWorld t =>
    refine Triple.of_fact_only fun hmeaning => ?_
    subst hmeaning
    have hanswer : ∀ a, a = ofRwkvWorld b t call → Triple (1 : Raw.Assn b.crates) (pure a)
        fun answer => fact (answer = ofRwkvWorld b t call) *
          ObjectAt (.rwkvWorld t) (ofRwkvWorld b t) := fun a ha =>
      Triple.ret_of (le_fact_mul ha (le_of_eq (fact_of rfl).symm))
    cases call with
    | encode text options =>
      exact hanswer _ (congrArg Answer.ids (Tokenizer.encode_fst ..))
    | encodeBatch texts options =>
      exact hanswer _ (congrArg Answer.batch (Tokenizer.encodeBatch_fst _ haligned ..))
    | _ => exact hanswer _ rfl

/-- **The destructor** gives back all that an object owns. -/
theorem destroyOld_spec {o : Option (Object b)} {meaning : Option Meaning} :
    Triple (PointerAt o meaning) (destroyOld o) fun _ => 1 := by
  cases o with
  | none =>
    cases meaning with
    | none => exact Triple.ret_of (le_refl 1)
    | some meaning => exact Triple.of_fact_only fun h => absurd h id
  | some o =>
    cases meaning with
    | none => exact Triple.of_fact_only fun h => absurd h id
    | some meaning =>
      cases o with
      | huggingFace t =>
        exact Triple.of_ex fun load => Triple.of_fact fun _ => Raw.HFTokenizer.destroy_spec
      | sentencePiece t => exact Triple.of_fact_only fun _ => Triple.ret_of (le_refl 1)
      | rwkvWorld t => exact Triple.of_fact_only fun _ => Triple.ret_of (le_refl 1)

theorem isSome_of_pointerAt {o : Option (Object b)} {meaning : Option Meaning}
    {R : Raw.Assn b.crates} {fragment : Fragment (Raw.Block b.crates)}
    (h : (PointerAt o meaning * R) fragment) : o.isSome = meaning.isSome := by
  cases o with
  | none =>
    cases meaning with
    | none => rfl
    | some meaning => exact absurd (fact_mul.mp h).1 id
  | some o =>
    cases meaning with
    | none => exact absurd (fact_mul.mp h).1 id
    | some meaning => rfl

/-- A factory has made an object with the meaning, or has thrown. -/
def MadeAt : Except CppException (Option (Object b)) → Except CppException (Option Meaning) →
    Raw.Assn b.crates
  | .ok o, .ok meaning => PointerAt o meaning
  | .error e, .error e' => fact (e = e')
  | _, _ => fact False

theorem madeAt_of_holdsMade {supportsEncodeFlags : Bool}
    (outcome : Except CppException Raw.HFTokenizer)
    (made : Except CppException (Raw.Load b.crates)) :
    Raw.HFTokenizer.HoldsMade supportsEncodeFlags outcome made ≤
      MadeAt (outcome.map fun t => some (.huggingFace t))
        (made.map fun load => some (ofLoad b load supportsEncodeFlags)) := by
  cases outcome with
  | error e => cases made <;> exact le_refl _
  | ok t =>
    cases made with
    | error e => exact le_refl _
    | ok load =>
      intro fragment h
      obtain ⟨hflags, h⟩ := fact_mul.mp h
      exact ⟨load, fact_mul.mpr ⟨by rw [hflags], h⟩⟩

/-- **A factory** makes what the specification says, and leaves these arrays behind. -/
theorem Model.make_spec (model : Model) :
    Triple 1 (model.make mp) fun made =>
      MadeAt made (Spec.make b model) * Arrays (model.leaked mp) := by
  have hnothing : ∀ {c : Raw.Prog b.crates (Except CppException (Option (Object b)))},
      Triple 1 c (fun made => MadeAt made (Spec.make b model)) →
        Triple 1 c fun made => MadeAt made (Spec.make b model) * Arrays [] := by
    intro c hc
    simpa only [arrays_nil, mul_one] using hc
  cases model with
  | json newFails json =>
    refine hnothing ((Raw.HFTokenizer.fromBlobJSON_spec json).bind fun outcome => ?_)
    exact Triple.ret_of (madeAt_of_holdsMade outcome _)
  | byteLevelBPE newFails vocab merges addedTokens =>
    refine hnothing ((Raw.HFTokenizer.fromBlobByteLevelBPE_spec vocab merges addedTokens).bind
      fun outcome => ?_)
    exact Triple.ret_of (madeAt_of_holdsMade outcome _)
  | sentencePiece modelBlob =>
    refine hnothing (Triple.ret_of ?_)
    rw [Spec.make]
    cases fromBlobSentencePiece b modelBlob with
    | none => exact le_refl 1
    | some t => exact le_of_eq (fact_of rfl).symm
  | rwkvWorld newFails file orders =>
    refine (Raw.RWKVWorldTokenizer.construct_spec mp newFails file orders).bind
      fun outcome => Triple.of_fact fun houtcome => ?_
    subst houtcome
    rw [Spec.make, Model.leaked]
    refine Triple.ret_of ?_
    cases RWKVWorldTokenizer.made b newFails file orders <;>
      exact le_fact_mul rfl (le_refl _)

end Objects

section Variables
variable [Fintype Var] {vars : Var → Option (Object b)} {meanings : Var → Option Meaning}

/-- A variable, apart from the others. -/
theorem varsAt_update (v : Var) (o : Option (Object b)) (meaning : Option Meaning) :
    VarsAt (Function.update vars v o) (Function.update meanings v meaning) =
      PointerAt o meaning * VarsAt (Function.update vars v none)
        (Function.update meanings v none) := by
  rw [VarsAt, VarsAt, prod_update PointerAt, prod_update PointerAt, PointerAt, one_mul]

theorem varsAt_self (v : Var) :
    VarsAt vars meanings = PointerAt (vars v) (meanings v) *
      VarsAt (Function.update vars v none) (Function.update meanings v none) := by
  rw [← varsAt_update v, Function.update_eq_self, Function.update_eq_self]

/-- A variable gives up its object. -/
theorem reset_spec (v : Var) :
    Triple (VarsAt vars meanings) (destroyOld (vars v)) fun _ =>
      VarsAt (Function.update vars v none) (Function.update meanings v none) := by
  rw [varsAt_self v]
  refine (destroyOld_spec.frame _).post fun _ => le_of_eq ?_
  rw [one_mul]

omit [DecidableEq Var] in
/-- Null variables own nothing. -/
theorem varsAt_none : VarsAt (fun _ : Var => (none : Option (Object b))) (fun _ => none) = 1 :=
  Finset.prod_const_one

omit [DecidableEq Var] in
/-- Whatever is said of them. -/
theorem varsAt_le_one (hnone : ∀ v, vars v = none) : VarsAt vars meanings ≤ 1 := by
  refine Finset.prod_le_one' fun v _ => ?_
  rw [hnone v]
  cases meanings v with
  | none => exact le_refl 1
  | some meaning => exact fact_le fun hfalse => absurd hfalse id

/-- Only a variable with a meaning is not null. -/
theorem eq_none_of_varsAt {R : Raw.Assn b.crates} {v : Var}
    {fragment : Fragment (Raw.Block b.crates)} (h : (VarsAt vars meanings * R) fragment) :
    vars v = none ↔ meanings v = none := by
  rw [varsAt_self v, mul_assoc] at h
  rw [← Option.isNone_iff_eq_none, ← Option.isNone_iff_eq_none, ← Option.not_isSome,
    ← Option.not_isSome, isSome_of_pointerAt h]

/-- **A step** replies as the specification says, and memory holds what the new objects
own and what the step leaves behind. -/
theorem step_spec (haligned : b.crates.BatchAligned) {command : Command Var} {reply : Reply}
    {meanings' : Var → Option Meaning}
    (h : Spec.step b meanings command = some (reply, meanings')) :
    Triple (VarsAt vars meanings) (step mp vars command) fun done =>
      fact (done.1 = reply) * (VarsAt done.2 meanings' * Arrays (command.leaked mp)) := by
  have hnothing : ∀ {c : Raw.Prog b.crates (Reply × (Var → Option (Object b)))},
      Triple (VarsAt vars meanings) c (fun done => fact (done.1 = reply) *
        VarsAt done.2 meanings') →
      Triple (VarsAt vars meanings) c fun done => fact (done.1 = reply) *
        (VarsAt done.2 meanings' * Arrays []) := by
    intro c hc
    simpa only [arrays_nil, mul_one] using hc
  cases command with
  | make v model =>
    refine (Model.make_spec mp model).step_one fun made => ?_
    rw [Spec.step] at h
    cases made with
    | error e =>
      cases hspec : Spec.make b model with
      | error e' =>
        rw [hspec] at h
        obtain ⟨rfl, rfl⟩ := Prod.mk.inj (Option.some.inj h)
        rw [mul_assoc]
        refine Triple.of_fact fun he => Triple.ret_of (le_fact_mul (by rw [he]) ?_)
        exact mul_comm_le _ _
      | ok o =>
        rw [mul_assoc]
        exact Triple.of_fact fun hfalse => absurd hfalse id
    | ok o =>
      cases hspec : Spec.make b model with
      | error e' =>
        rw [mul_assoc]
        exact Triple.of_fact fun hfalse => absurd hfalse id
      | ok meaning =>
        rw [hspec] at h
        obtain ⟨rfl, rfl⟩ := Prod.mk.inj (Option.some.inj h)
        rw [mul_assoc]
        refine (Triple.of_fact fun hsome => ?_).pre fun _ hmade =>
          fact_mul.mpr ⟨isSome_of_pointerAt hmade, hmade⟩
        show Triple (PointerAt o meaning * (Arrays (model.leaked mp) * VarsAt vars meanings)) _ _
        rw [← mul_assoc, mul_comm]
        refine (reset_spec v).step fun _ => Triple.ret_of (le_fact_mul (by rw [hsome]) ?_)
        show _ ≤ VarsAt (Function.update vars v o) _ * _
        rw [varsAt_update v o meaning]
        exact le_of_eq (by ac_rfl)
  | call v call =>
    obtain ⟨meaning, hmeaning, heq⟩ := Option.map_eq_some_iff.mp h
    obtain ⟨rfl, rfl⟩ := Prod.mk.inj heq
    refine hnothing ?_
    have hself := @varsAt_self b Var _ _ vars meanings v
    rw [hmeaning] at hself
    cases hvar : vars v with
    | none =>
      rw [hself, hvar]
      exact Triple.of_fact fun hfalse => absurd hfalse id
    | some o =>
      rw [hvar] at hself
      rw [step, hvar]
      refine ((Object.call_spec haligned call).step_eq ?_).pre (le_of_eq hself)
      exact Triple.ret_of (le_fact_mul rfl (le_of_eq hself.symm))
  | reset v =>
    obtain ⟨rfl, rfl⟩ := Prod.mk.inj (Option.some.inj h)
    exact hnothing ((reset_spec v).bind fun _ => Triple.ret_of (le_fact_mul rfl (le_refl _)))
  | move v w =>
    obtain ⟨rfl, rfl⟩ := Prod.mk.inj (Option.some.inj h)
    refine hnothing ?_
    -- the object of `w` is nobody's while the one of `v` is destroyed
    rw [varsAt_self w, mul_comm]
    refine (reset_spec v).step fun _ => Triple.ret_of (le_fact_mul rfl (le_of_eq ?_))
    exact (mul_comm _ _).trans (varsAt_update v _ _).symm

/-- A step that the specification does not know calls through a null pointer. -/
theorem step_fault {R : Raw.Assn b.crates} {command : Command Var}
    (h : Spec.step b meanings command = none) {heap : Heap (Raw.Block b.crates)}
    (hvars : (VarsAt vars meanings * R) heap.blocks) : step mp vars command heap = none := by
  cases command with
  | make v model =>
    rw [Spec.step] at h
    cases hspec : Spec.make b model <;> rw [hspec] at h <;> cases h
  | call v call =>
    have hmeaning := Option.map_eq_none_iff.mp h
    rw [step, (eq_none_of_varsAt hvars).mpr hmeaning]
    rfl
  | reset v => cases h
  | move v w => cases h

/-- **A program** that the specification lets go on replies as it says. -/
theorem run_spec (haligned : b.crates.BatchAligned) {commands : List (Command Var)}
    {replies : List Reply} {meanings' : Var → Option Meaning}
    (h : Spec.run b commands meanings = some (replies, meanings')) :
    Triple (VarsAt vars meanings) (run mp commands vars) fun done =>
      fact (done.1 = replies) * (VarsAt done.2 meanings' * Arrays (leaked mp commands)) := by
  induction commands generalizing vars meanings replies with
  | nil =>
    obtain ⟨rfl, rfl⟩ := Prod.mk.inj (Option.some.inj h)
    refine Triple.ret_of (le_fact_mul rfl (le_of_eq ?_))
    exact (mul_one _).symm
  | cons command commands ih =>
    obtain ⟨⟨reply, meanings₁⟩, hstep, h⟩ := Option.bind_eq_some_iff.mp h
    obtain ⟨⟨replies', meanings₂⟩, hrest, h⟩ := Option.bind_eq_some_iff.mp h
    obtain ⟨rfl, rfl⟩ := Prod.mk.inj (Option.some.inj h)
    refine (step_spec mp haligned hstep).bind fun done => Triple.of_fact fun hreply => ?_
    refine (ih hrest).step fun rest => ?_
    rw [mul_assoc]
    refine Triple.of_fact fun hreplies => ?_
    refine Triple.ret_of (le_fact_mul (by rw [hreply, hreplies]) ?_)
    show _ ≤ VarsAt rest.2 meanings₂ * Arrays (command.leaked mp ++ leaked mp commands)
    rw [arrays_append]
    exact le_of_eq (by ac_rfl)

/-- One that it does not let go on has a fault. -/
theorem run_fault (haligned : b.crates.BatchAligned) {R : Raw.Assn b.crates}
    {commands : List (Command Var)} (h : Spec.run b commands meanings = none)
    {heap : Heap (Raw.Block b.crates)} (hvars : (VarsAt vars meanings * R) heap.blocks) :
    run mp commands vars heap = none := by
  induction commands generalizing vars meanings heap R with
  | nil => cases h
  | cons command commands ih =>
    show (step mp vars command heap).bind _ = none
    cases hstep : Spec.step b meanings command with
    | none => rw [step_fault mp hstep hvars, Option.bind_none]
    | some next =>
      obtain ⟨reply, meanings₁⟩ := next
      obtain ⟨done, heap₁, hrun, hpost⟩ := step_spec mp haligned hstep R heap hvars
      rw [mul_assoc, fact_mul, mul_assoc] at hpost
      rw [hrun, Option.bind_some]
      show (run mp commands done.2 heap₁).bind _ = none
      have hrest : Spec.run b commands meanings₁ = none := by
        cases hrest : Spec.run b commands meanings₁ with
        | none => rfl
        | some rest =>
          rw [Spec.run, hstep] at h
          simp only [Option.bind_eq_bind, Option.bind_some, hrest] at h
          cases h
      rw [ih hrest hpost.2, Option.bind_none]

omit [DecidableEq Var] in
/-- The start of a program: no variable has an object, and memory is empty. -/
theorem varsAt_empty :
    VarsAt (fun _ : Var => (none : Option (Object b))) (fun _ => none)
      (Heap.empty : Heap (Raw.Block b.crates)).blocks := by
  rw [varsAt_none]
  rfl

/-- A program has a fault on both levels, or it ends alike on both. -/
theorem run_cases (haligned : b.crates.BatchAligned) (commands : List (Command Var)) :
    (Spec.run b commands (fun _ => none) = none ∧
      run mp commands (fun _ => none) Heap.empty = none) ∨
    ∃ replies meanings vars heap,
      Spec.run b commands (fun _ => none) = some (replies, meanings) ∧
        run mp commands (fun _ => none) Heap.empty = some ((replies, vars), heap) ∧
        (VarsAt vars meanings * Arrays (leaked mp commands) : Raw.Assn b.crates) heap.blocks := by
  cases hspec : Spec.run b commands fun _ => none with
  | none =>
    refine Or.inl ⟨rfl, ?_⟩
    have hvars : (VarsAt (fun _ : Var => (none : Option (Object b))) (fun _ => none) * 1)
        (Heap.empty : Heap (Raw.Block b.crates)).blocks := by
      rw [mul_one]
      exact varsAt_empty
    exact run_fault mp haligned hspec hvars
  | some done =>
    obtain ⟨⟨replies, vars⟩, heap, hrun, hpost⟩ := (run_spec mp haligned hspec).run varsAt_empty
    obtain ⟨hreplies, hvars⟩ := fact_mul.mp hpost
    subst hreplies
    exact Or.inr ⟨_, _, vars, heap, rfl, hrun, hvars⟩

/-- At the end of a program memory has what the objects own and what was left behind. -/
theorem owned_of_run (haligned : b.crates.BatchAligned) {commands : List (Command Var)}
    {replies : List Reply} {heap : Heap (Raw.Block b.crates)}
    (h : run mp commands (fun _ => none) Heap.empty = some ((replies, vars), heap)) :
    ∃ meanings,
      (VarsAt vars meanings * Arrays (leaked mp commands) : Raw.Assn b.crates) heap.blocks := by
  rcases run_cases mp haligned commands with
    ⟨-, hrun⟩ | ⟨replies', meanings, vars', heap', -, hrun, hvars⟩
  · rw [h] at hrun
    cases hrun
  · obtain ⟨hreplies, rfl⟩ := Prod.mk.inj (Option.some.inj (h.symm.trans hrun))
    obtain ⟨rfl, rfl⟩ := Prod.mk.inj hreplies
    exact ⟨meanings, hvars⟩

/-- A pointer has at most the three blocks of a Hugging Face object. -/
theorem pointerAt_le_atMost (o : Option (Object b)) (meaning : Option Meaning) :
    PointerAt o meaning ≤ atMost (if o.isSome then 3 else 0) := by
  cases o with
  | none =>
    cases meaning with
    | none => exact one_le_atMost
    | some meaning => exact fact_le fun hfalse => absurd hfalse id
  | some o =>
    cases meaning with
    | none => exact fact_le fun hfalse => absurd hfalse id
    | some meaning =>
      cases o with
      | huggingFace t =>
        exact ex_le fun load => fact_mul_le fun _ => Raw.handleAt_le_atMost
      | sentencePiece t => exact fact_le fun _ => one_le_atMost
      | rwkvWorld t => exact fact_le fun _ => one_le_atMost

end Variables

/-! ## Main results -/

section Results
variable [Fintype Var]

/-- **The two levels agree.**  A program over memory replies as the same program over
meanings, and it has a fault exactly where this one calls through a null pointer. -/
theorem program_refines (haligned : b.crates.BatchAligned) (commands : List (Command Var)) :
    (run mp commands (fun _ => none) Heap.empty).map (fun done => done.1.1) =
      (Spec.run b commands fun _ => none).map Prod.fst := by
  rcases run_cases mp haligned commands with
    ⟨hspec, hrun⟩ | ⟨replies, meanings, vars, heap, hspec, hrun, -⟩
  · rw [hspec, hrun]
    rfl
  · rw [hspec, hrun]
    rfl

/-- The bytes of no object; the sample library knows nothing else that is not msgpack. -/
def notMsgpack : Bytes := [0xc1]

/-- The sample libraries, as a build. -/
def sampleBuild : Build where
  crates := SampleLibrary.crates
  lib := SampleLibrary.sentencePiece
  cs := .signed
  unpack content :=
    if content = notMsgpack then .error (.stdException "parse error")
    else SampleLibrary.unpack content
  enableSentencePiece := true

def sampleMsgpack : Msgpack sampleBuild where
  Object := Bytes
  unpack content :=
    if content = notMsgpack then .error (.stdException "parse error") else .ok content
  as := SampleLibrary.unpack
  unpack_as content := by
    show (if content = notMsgpack then _ else _) = (if content = notMsgpack then _ else _) >>= _
    by_cases h : content = notMsgpack
    · rw [if_pos h, if_pos h]
      rfl
    · rw [if_neg h, if_neg h]
      rfl

/-- Decodes, moves the object to the other variable, encodes, and resets. -/
def sampleProgram : List (Command Bool) :=
  [.make true (.json false (strBytes SampleLibrary.plainJson)), .call true (.decode [0, 1]),
    .move false true, .call false (.encode (strBytes "ab") {}), .reset false]

omit [DecidableEq Var] [Fintype Var] in
/-- A text that `from_str` accepts makes an object. -/
theorem make_json {json : String} {w : TokenizerWrapper b.crates}
    (h : TokenizerWrapper.fromStr b.crates json = .ok w) :
    Spec.make b (.json false (strBytes json)) = .ok (some (ofLoad b (Raw.Load.of w) true)) := by
  rw [Spec.make, inputStr_strBytes, Traversal.ok_bind, h]
  rfl

theorem spec_run_sampleProgram : ∃ meanings, Spec.run sampleBuild sampleProgram (fun _ => none) =
    some ([.made (.ok true), .answer (.text (.ok (strBytes "ab"))), .done,
      .answer (.ids (.ok [0, 1])), .done], meanings) := by
  have hmake := @make_json sampleBuild _ _
    (SampleLibrary.fromStr_wrapperOf SampleLibrary.fromStr_plain)
  rw [sampleProgram, Spec.run, Spec.step, hmake]
  exact ⟨_, rfl⟩

theorem program_refines_sample :
    (run sampleMsgpack sampleProgram (fun _ => none) Heap.empty).map (fun done => done.1.1) =
      some [.made (.ok true), .answer (.text (.ok (strBytes "ab"))), .done,
        .answer (.ids (.ok [0, 1])), .done] := by
  obtain ⟨meanings, hspec⟩ := spec_run_sampleProgram
  rw [program_refines sampleMsgpack SampleLibrary.view_documented.padded.batchAligned
    sampleProgram, hspec]
  rfl

/-- **Memory is bounded.**  After any program there are at most three blocks for every
variable with an object, however many calls there were, and one array for each file that
an RWKV factory found not to be msgpack. -/
theorem memory_bounded (haligned : b.crates.BatchAligned) {commands : List (Command Var)}
    {replies : List Reply} {vars : Var → Option (Object b)} {heap : Heap (Raw.Block b.crates)}
    (h : run mp commands (fun _ => none) Heap.empty = some ((replies, vars), heap)) :
    heap.blocks.keys.card ≤
      3 * (Finset.univ.filter fun v => (vars v).isSome).card + (leaked mp commands).length := by
  obtain ⟨meanings, hvars⟩ := owned_of_run mp haligned h
  have hobjects := prod_le_atMost Finset.univ fun v => pointerAt_le_atMost (vars v) (meanings v)
  rw [← Finset.sum_filter, Finset.sum_const_nat fun _ _ => rfl, mul_comm] at hobjects
  have hcard := mul_le_atMost hobjects somewhere_le_atMost heap.blocks hvars
  rwa [atMost, List.length_map] at hcard

theorem memory_bounded_sample : ∃ replies vars heap,
    run sampleMsgpack sampleProgram (fun _ => none) Heap.empty = some ((replies, vars), heap) ∧
      heap.blocks.keys.card ≤ 3 * (Finset.univ.filter fun v => (vars v).isSome).card +
        (leaked sampleMsgpack sampleProgram).length := by
  have haligned := SampleLibrary.view_documented.padded.batchAligned
  rcases run_cases sampleMsgpack haligned sampleProgram with
    ⟨hspec, -⟩ | ⟨replies, meanings, vars, heap, -, hrun, -⟩
  · obtain ⟨meanings, hspec'⟩ := spec_run_sampleProgram
    rw [hspec] at hspec'
    cases hspec'
  · exact ⟨replies, vars, heap, hrun, memory_bounded sampleMsgpack haligned hrun⟩

/-- **What stays behind.**  Once no variable has an object, memory has exactly the arrays of
the files that RWKV factories found not to be msgpack. -/
theorem memory_left (haligned : b.crates.BatchAligned) {commands : List (Command Var)}
    {replies : List Reply} {vars : Var → Option (Object b)} {heap : Heap (Raw.Block b.crates)}
    (h : run mp commands (fun _ => none) Heap.empty = some ((replies, vars), heap))
    (hnone : ∀ v, vars v = none) :
    heap.blocks.entries.map Sigma.snd =
      Multiset.ofList ((leaked mp commands).map Raw.Block.bytes) := by
  obtain ⟨meanings, hvars⟩ := owned_of_run mp haligned h
  have harrays := mul_le (varsAt_le_one hnone) (le_refl _) heap.blocks hvars
  rw [one_mul] at harrays
  exact entries_of_somewhere harrays

/-- Has an object, and loads a file that is not msgpack before it resets the object. -/
def leakingProgram (orders : Orders) : List (Command Bool) :=
  [.make true (.json false (strBytes SampleLibrary.plainJson)),
    .make false (.rwkvWorld false (some notMsgpack) orders), .reset true]

theorem memory_left_sample : ∃ orders replies vars heap,
    run sampleMsgpack (leakingProgram orders) (fun _ => none) Heap.empty =
        some ((replies, vars), heap) ∧
      heap.blocks.entries.map Sigma.snd = Multiset.ofList [Raw.Block.bytes notMsgpack] := by
  obtain ⟨orders⟩ := (inferInstance : Nonempty Orders)
  have haligned := SampleLibrary.view_documented.padded.batchAligned
  have hmake := @make_json sampleBuild _ _
    (SampleLibrary.fromStr_wrapperOf SampleLibrary.fromStr_plain)
  obtain ⟨replies, meanings, hspec, hnone⟩ : ∃ replies meanings,
      Spec.run sampleBuild (leakingProgram orders) (fun _ => none) = some (replies, meanings) ∧
        ∀ v, meanings v = none := by
    rw [leakingProgram, Spec.run, Spec.step, hmake]
    exact ⟨_, _, rfl, fun v => by cases v <;> rfl⟩
  rcases run_cases sampleMsgpack haligned (leakingProgram orders) with
    ⟨hfault, -⟩ | ⟨replies', meanings', vars, heap, hspec', hrun, hvars⟩
  · rw [hspec] at hfault
    cases hfault
  · obtain ⟨rfl, rfl⟩ := Prod.mk.inj (Option.some.inj (hspec.symm.trans hspec'))
    refine ⟨orders, replies, vars, heap, hrun, ?_⟩
    exact memory_left sampleMsgpack haligned hrun fun v => (eq_none_of_varsAt hvars).mpr (hnone v)

end Results

end Session

end TokenizersCpp
