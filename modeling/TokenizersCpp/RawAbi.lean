import TokenizersCpp.RawMemory

/-!
# The C entry points over memory

The `extern "C"` functions again, now with the boxes in memory (`RawMemory`).  The
computations are those of `CAbi`; what is new is where results lie and when memory is
given back.  Each function has one specification: which blocks it needs, which it
leaves, and what it returns — the status and the message of the computation of `CAbi`
on the wrapper behind the handle.
-/

namespace TokenizersCpp

open Separation Separation.Assn

namespace Raw

variable {crates : Crates}

/-! ## The guarded call -/

/-- `write_error_message(out_error, message)`. -/
def writeErrorMessage (outError : Option Slice) (message : String) :
    Prog crates (Option Slice) :=
  match outError with
  | none => return none
  | some _ => do
      let data ← boxSlice .byte (strBytes message)
      return some data

/-- What an entry point returns to C: its status, its output slots and the error slot. -/
structure FfiReturn (S : Type) where
  status : TokenizerStatus
  slots : S
  error : Option Slice

/-- `ffi_call(out_error, action)`. -/
def ffiCall {S : Type} (outError : Option Slice) (action : Prog crates (Rust Unit × S)) :
    Prog crates (FfiReturn S) := do
  let outError := outError.map fun _ => Slice.null
  let (result, slots) ← action
  match result with
  | .ok () => return ⟨.ok, slots, outError⟩
  | .error abort => do
      let outError ← writeErrorMessage outError abort.message
      return ⟨abort.status, slots, outError⟩

/-- The handle as `CAbi` passes it, from the wrapper in memory. -/
def openHandle : Pointer → Prog crates (TokenizerHandle crates)
  | .null => return none
  | .dangling => Prog.fault
  | .block a => do
      let w ← loadWrapper a
      return asHandle (some w.load)

/-- The closure of an entry point with one output slot. -/
def writeSlot {S α : Type} (nullMessage : String) (null : S) (box : α → Prog crates S)
    (out : Option S) (compute : Prog crates (Rust α)) : Prog crates (Rust Unit × Option S) :=
  match out with
  | none => return (.error (.error (.invalidArgument nullMessage)), none)
  | some _ => do
      match ← compute with
      | .error abort => return (.error abort, some null)
      | .ok a => do
          let slot ← box a
          return (.ok (), some slot)

/-! ## Construction -/

/-- `Box::into_raw(Box::new(wrapper))`; the strings of a new wrapper have no buffers. -/
def boxWrapper (w : TokenizerWrapper crates) : Prog crates Pointer := do
  let a ← Prog.alloc (.wrapper ⟨w.tokenizer, w.encodeVariants, .empty, .empty⟩)
  return .block a

/-- `tokenizers_new_from_str`. -/
def tokenizersNewFromStr (inputJson : Option Bytes) (len : Nat) (outHandle : Option Pointer)
    (outError : Option Slice) : Prog crates (FfiReturn (Option Pointer)) :=
  ffiCall outError <| writeSlot "Output tokenizer handle is null" .null boxWrapper outHandle <|
    return do
      let json ← inputStr crates.utf8Error inputJson len "Tokenizer JSON"
      TokenizerWrapper.fromStr crates json

/-- `byte_level_bpe_tokenizers_new_from_str`. -/
def byteLevelBpeTokenizersNewFromStr (inputVocab : Option Bytes) (vocabLen : Nat)
    (inputMerges : Option Bytes) (mergesLen : Nat) (inputAddedTokens : Option Bytes)
    (addedTokensLen : Nat) (outHandle : Option Pointer) (outError : Option Slice) :
    Prog crates (FfiReturn (Option Pointer)) :=
  ffiCall outError <| writeSlot "Output tokenizer handle is null" .null boxWrapper outHandle <|
    return do
      let vocab ← inputStr crates.utf8Error inputVocab vocabLen "BPE vocabulary"
      let merges ← inputStr crates.utf8Error inputMerges mergesLen "BPE merges"
      let addedTokens ←
        inputStr crates.utf8Error inputAddedTokens addedTokensLen "BPE added-token map"
      TokenizerWrapper.byteLevelBpeFromStr crates vocab merges addedTokens

/-! ## Encoding -/

/-- `tokenizers_encode`. -/
def tokenizersEncode (handle : Pointer) (inputText : Option Bytes) (len : Nat)
    (addSpecialTokens : Int32) (flags : UInt32) (outResult outError : Option Slice) :
    Prog crates (FfiReturn (Option Slice)) :=
  ffiCall outError <|
    writeSlot "Output encode result is null" .null (boxSlice .id) outResult do
      let handle ← openHandle handle
      return encodeInput handle inputText len addSpecialTokens flags

/-- The final loop of `tokenizers_encode_batch`. -/
def handOver : List (List UInt32) → Prog crates (List Slice)
  | [] => return []
  | encoded :: batch => do
      let slice ← boxSlice .id encoded
      let slices ← handOver batch
      return slice :: slices

/-- `tokenizers_encode_batch`. -/
def tokenizersEncodeBatch (handle : Pointer) (inputTexts : Option (List (Option Bytes)))
    (inputLens : Option (List Nat)) (numSeqs : Nat) (addSpecialTokens : Int32) (flags : UInt32)
    (outResults : Option (List Slice)) (outError : Option Slice) :
    Prog crates (FfiReturn (Option (List Slice))) :=
  ffiCall outError <|
    if numSeqs = 0 then do
      let handle ← openHandle handle
      match encodeInputs handle [] [] 0 addSpecialTokens flags with
      | .error abort => return (.error abort, outResults)
      | .ok _ => return (.ok (), outResults)
    else
      match inputTexts, inputLens, outResults with
      | some texts, some lens, some results => do
          let results := overwrite (List.replicate numSeqs Slice.null) results
          let handle ← openHandle handle
          match encodeInputs handle texts lens numSeqs addSpecialTokens flags with
          | .error abort => return (.error abort, some results)
          | .ok encodedBatch => do
              let boxedResults ← handOver encodedBatch
              return (.ok (), some (overwrite boxedResults results))
      | _, _, _ =>
          return (.error (.error (.invalidArgument "Batch input or output array is null")),
            outResults)

/-! ## Release -/

/-- `drop(Box::from_raw(..))` behind a check for null; the slot is null afterwards. -/
def freeSlice {α : Type} (elem : Element crates α) (slice : Slice) : Prog crates Slice :=
  if slice.data = .null then
    return slice
  else do
    dropSlice elem slice
    return .null

/-- The loop of `tokenizers_free_encode_results`. -/
def freeEncodeResultsLoop : List Slice → Prog crates (List Slice)
  | [] => return []
  | result :: results => do
      let result ← freeSlice .id result
      let results ← freeEncodeResultsLoop results
      return result :: results

/-- `tokenizers_free_encode_results(results, num_seqs)`. -/
def tokenizersFreeEncodeResults (results : Option (List Slice)) (numSeqs : Nat) :
    Prog crates (Option (List Slice)) :=
  match results with
  | none => return none
  | some results =>
      if numSeqs = 0 then
        return some results
      else do
        let freed ← freeEncodeResultsLoop (results.take numSeqs)
        return some (overwrite freed results)

/-- `tokenizers_free_error_message(error)`. -/
def tokenizersFreeErrorMessage (error : Option Slice) : Prog crates (Option Slice) :=
  match error with
  | none => return none
  | some message => do
      let message ← freeSlice .byte message
      return some message

/-- `tokenizers_free(wrapper)`: the box is dropped, and with it the strings of the wrapper. -/
def tokenizersFree : Pointer → Prog crates Unit
  | .null => return ()
  | .dangling => Prog.fault
  | .block a => do
      let w ← loadWrapper a
      dropSlice .byte w.decodeStr
      dropSlice .byte w.idToTokenResult
      Prog.free a

/-! ## Decoding and lookup -/

/-- `self.field = text`: the new string has its own buffer, and the old one is dropped. -/
def assignString (field : Slice) (text : String) : Prog crates Slice := do
  let new ← boxSlice .byte (strBytes text)
  dropSlice .byte field
  return new

/-- `decode(ids, skip_special_tokens)` on the wrapper at an address. -/
def decodeInto (a : Nat) (ids : List UInt32) (skipSpecialTokens : Bool) : Prog crates Unit := do
  let w ← loadWrapper a
  let decodeStr ← assignString w.decodeStr (w.load.wrapper.decodedText ids skipSpecialTokens)
  Prog.store a (.wrapper { w with decodeStr })

/-- `tokenizers_decode`. -/
def tokenizersDecode (handle : Pointer) (inputIds : Option (List UInt32)) (len : Nat)
    (skipSpecialTokens : Int32) : Prog crates Unit :=
  match handle with
  | .null => return ()
  | .dangling => Prog.fault
  | .block a =>
      if len = 0 then
        decodeInto a [] (skipSpecialTokens != 0)
      else
        match inputIds with
        | none => return ()
        | some ids => decodeInto a (ids.take len) (skipSpecialTokens != 0)

/-- `tokenizers_get_decode_str`.  The cells `*out_cstr` and `*out_len` are one slice, which
is `none` if nothing was written to them yet; a null pointer to one of them is `none`
outside. -/
def tokenizersGetDecodeStr (handle : Pointer) (out : Option (Option Slice)) :
    Prog crates (Option (Option Slice)) :=
  match handle, out with
  | .dangling, some _ => Prog.fault
  | .block a, some _ => do
      let w ← loadWrapper a
      return some (some w.decodeStr)
  | _, _ => return out

/-- `tokenizers_get_vocab_size`: the cell `*size`. -/
def tokenizersGetVocabSize (handle : Pointer) (size : Option (Option Nat)) :
    Prog crates (Option (Option Nat)) :=
  match handle, size with
  | .dangling, some _ => Prog.fault
  | .block a, some _ => do
      let w ← loadWrapper a
      return some (some (crates.getVocabSize w.tokenizer true))
  | _, _ => return size

/-- `tokenizers_id_to_token`: the cells `*out_cstr` and `*out_len`. -/
def tokenizersIdToToken (handle : Pointer) (id : UInt32) (out : Option (Option Slice)) :
    Prog crates (Option (Option Slice)) :=
  match handle, out with
  | .dangling, some _ => Prog.fault
  | .block a, some _ => do
      let w ← loadWrapper a
      let idToTokenResult ← assignString w.idToTokenResult (w.load.wrapper.tokenText id)
      Prog.store a (.wrapper { w with idToTokenResult })
      return some (some idToTokenResult)
  | _, _ => return out

/-- `tokenizers_token_to_id`: the cell `*out_id`. -/
def tokenizersTokenToId (handle : Pointer) (token : Option Bytes) (len : Nat)
    (outId : Option (Option Int32)) : Prog crates (Option (Option Int32)) :=
  match handle, outId with
  | .dangling, some _ => Prog.fault
  | .block a, some _ => do
      let w ← loadWrapper a
      match inputStr crates.utf8Error token len "Token" with
      | .error _ => return some (some (-1))
      | .ok token =>
          return some (some (((crates.tokenToId w.tokenizer token).bind i32TryFrom).getD (-1)))
  | _, _ => return outId

/-! ## Specifications -/

/-- The status of a computation. -/
def statusOf {α : Type} : Rust α → TokenizerStatus
  | .ok _ => .ok
  | .error abort => abort.status

/-- What a computation returns, if it does. -/
def resultOf {α : Type} : Rust α → Option α
  | .ok a => some a
  | .error _ => none

/-- The message of a computation that does not. -/
def messageOf {α : Type} : Rust α → Option Bytes
  | .ok _ => none
  | .error abort => some (strBytes abort.message)

/-- An output that was asked for, with what holds of it. -/
def Filled {S : Type} (out : Option S) (P : S → Assn crates) : Assn crates :=
  match out with
  | some slot => P slot
  | none => fact False

/-- An entry point has returned what its computation says, into the slots that it was
given. -/
def Returned {S α : Type} (holds : S → Option α → Assn crates) (result : Rust α)
    (done : FfiReturn (Option S)) : Assn crates :=
  fact (done.status = statusOf result) *
    (Filled done.slots (fun slot => holds slot (resultOf result)) *
      Filled done.error fun error => Holds .byte error (messageOf result))

section Calls
variable {S α β : Type} {P R : Assn crates} {error slice : Slice}

theorem of_filled {out : Option S} {P : S → Assn crates} {c : Prog crates β}
    {Q : β → Assn crates} (h : ∀ slot, out = some slot → Triple (P slot * R) c Q) :
    Triple (Filled out P * R) c Q := by
  cases out with
  | some slot => exact h slot rfl
  | none => exact Triple.of_fact fun hnone => absurd hnone id

/-- What an entry point has returned is used by its caller. -/
theorem of_returned {holds : S → Option α → Assn crates} {result : Rust α}
    {done : FfiReturn (Option S)} {c : Prog crates β} {Q : β → Assn crates}
    (h : ∀ slot error, done = ⟨statusOf result, some slot, some error⟩ →
      Triple (Holds .byte error (messageOf result) * (holds slot (resultOf result) * R)) c Q) :
    Triple (Returned holds result done * R) c Q := by
  obtain ⟨status, slots, error⟩ := done
  rw [Returned, mul_assoc]
  refine Triple.of_fact fun hstatus => ?_
  rw [mul_assoc]
  refine of_filled fun slot hslot => ?_
  rw [mul_left_comm]
  refine of_filled fun error herror => h slot error ?_
  simp only at hstatus hslot herror
  rw [hstatus, hslot, herror]

/-- **The guarded call** reports how its closure ended, with the message of an abort in
the error slot. -/
theorem ffiCall_spec {action : Prog crates (Rust Unit × S)} {result : Rust Unit}
    (Q : S → Assn crates) (h : Triple P action fun ended => fact (ended.1 = result) * Q ended.2) :
    Triple P (ffiCall (some error) action) fun done =>
      fact (done.status = statusOf result) * (Q done.slots *
        Filled done.error fun error => Holds .byte error (messageOf result)) := by
  refine h.bind fun ⟨ended, slots⟩ => Triple.of_fact fun hended => ?_
  subst hended
  cases ended with
  | ok u =>
    have hcleared : (1 : Assn crates) ≤ Holds .byte .null none := holds_null
    exact Triple.ret_of (le_fact_mul rfl (le_mul_of_one_le_right' hcleared))
  | error abort =>
    simp only [writeErrorMessage, Option.map_some, bind_assoc, pure_bind]
    refine (boxSlice_spec (strBytes abort.message)).step_one fun message => ?_
    exact Triple.ret_of (le_fact_mul rfl (le_of_eq (mul_comm _ _)))

/-- The computation of an entry point, once its input is in hand. -/
theorem writeSlot_spec {nullMessage : String} {null slot : S} {holds : S → Option α → Assn crates}
    {box : α → Prog crates S} {compute : Prog crates (Rust α)} {result : Rust α}
    (hnull : 1 ≤ holds null none) (hbox : ∀ a, Triple 1 (box a) fun slot => holds slot (some a))
    (hcompute : Triple P compute fun r => fact (r = result) * P) :
    Triple P (writeSlot nullMessage null box (some slot) compute) fun ended =>
      fact (ended.1 = result.map fun _ => ()) *
        ((Filled ended.2 fun slot => holds slot (resultOf result)) * P) := by
  refine hcompute.bind_eq ?_
  cases result with
  | ok a => exact (hbox a).step_one fun slot => Triple.ret_of (le_fact_mul rfl (le_refl _))
  | error abort =>
    exact Triple.ret_of (le_fact_mul rfl (le_mul_of_one_le_left' hnull))

/-- **An entry point** returns what its computation says, if its closure does. -/
theorem ffiCall_returned {action : Prog crates (Rust Unit × Option S)}
    (holds : S → Option α → Assn crates) {result : Rust α}
    (h : Triple P action fun ended => fact (ended.1 = result.map fun _ => ()) *
      ((Filled ended.2 fun slot => holds slot (resultOf result)) * P)) :
    Triple P (ffiCall (some error) action) fun done => Returned holds result done * P := by
  refine (ffiCall_spec (fun out => Filled out (fun slot => holds slot (resultOf result)) * P)
    h).post fun done => le_of_eq ?_
  cases result <;> exact (by rw [Returned]; ac_rfl)

theorem ffiCall_writeSlot {nullMessage : String} {null slot : S} {box : α → Prog crates S}
    (holds : S → Option α → Assn crates) {compute : Prog crates (Rust α)} {result : Rust α}
    (hnull : 1 ≤ holds null none) (hbox : ∀ a, Triple 1 (box a) fun slot => holds slot (some a))
    (hcompute : Triple P compute fun r => fact (r = result) * P) :
    Triple P (ffiCall (some error) (writeSlot nullMessage null box (some slot) compute)) fun done =>
      Returned holds result done * P :=
  ffiCall_returned holds (writeSlot_spec hnull hbox hcompute)

end Calls

section Handles
variable {p : Pointer} {load : Option (Load crates)} {error : Slice}

theorem openHandle_spec :
    Triple (HandleAt p load) (openHandle p) fun handle =>
      fact (handle = asHandle load) * HandleAt p load := by
  cases load with
  | none =>
    refine Triple.of_fact_only fun hp => ?_
    subst hp
    exact Triple.ret_of (le_fact_mul rfl handleAt_null)
  | some load =>
    refine of_handleAt fun a w d i hp hload => ?_
    subst hp hload
    refine loadWrapper_spec.step_eq (Triple.ret_of (le_fact_mul rfl ?_))
    exact handleAt_wrapper

theorem boxWrapper_spec (w : TokenizerWrapper crates) :
    Triple 1 (boxWrapper w) fun p => HandleAt p (some (Load.of w)) := by
  refine (Triple.alloc _).bind fun a => Triple.ret_of ?_
  have hnew : pointsTo a (.wrapper ⟨w.tokenizer, w.encodeVariants, .empty, .empty⟩) ≤
      WrapperAt a ⟨w.tokenizer, w.encodeVariants, .empty, .empty⟩ [] [] :=
    le_mul_of_one_le_right' (le_mul_of_one_le_right' holds_empty |>.trans' holds_empty)
  exact le_trans hnew handleAt_wrapper

/-- A new handle is live, or null. -/
def HoldsNew (p : Pointer) (w : Option (TokenizerWrapper crates)) : Assn crates :=
  HandleAt p (w.map Load.of)

/-- **`tokenizers_new_from_str`** hands over a live handle, or a message. -/
theorem tokenizersNewFromStr_spec (inputJson : Option Bytes) (len : Nat) :
    Triple 1 (tokenizersNewFromStr inputJson len (some p) (some error)) (Returned HoldsNew do
      let json ← inputStr crates.utf8Error inputJson len "Tokenizer JSON"
      TokenizerWrapper.fromStr crates json) := by
  refine (ffiCall_writeSlot HoldsNew handleAt_null boxWrapper_spec Triple.ret_eq).post fun _ => ?_
  rw [mul_one]

theorem byteLevelBpeTokenizersNewFromStr_spec (inputVocab : Option Bytes) (vocabLen : Nat)
    (inputMerges : Option Bytes) (mergesLen : Nat) (inputAddedTokens : Option Bytes)
    (addedTokensLen : Nat) :
    Triple 1 (byteLevelBpeTokenizersNewFromStr inputVocab vocabLen inputMerges mergesLen
      inputAddedTokens addedTokensLen (some p) (some error)) (Returned HoldsNew do
        let vocab ← inputStr crates.utf8Error inputVocab vocabLen "BPE vocabulary"
        let merges ← inputStr crates.utf8Error inputMerges mergesLen "BPE merges"
        let addedTokens ←
          inputStr crates.utf8Error inputAddedTokens addedTokensLen "BPE added-token map"
        TokenizerWrapper.byteLevelBpeFromStr crates vocab merges addedTokens) := by
  refine (ffiCall_writeSlot HoldsNew handleAt_null boxWrapper_spec Triple.ret_eq).post fun _ => ?_
  rw [mul_one]

/-- **`tokenizers_encode`** hands over the ids, or a message. -/
theorem tokenizersEncode_spec (inputText : Option Bytes) (len : Nat) (addSpecialTokens : Int32)
    (flags : UInt32) (slot : Slice) :
    Triple (HandleAt p load)
      (tokenizersEncode p inputText len addSpecialTokens flags (some slot) (some error)) fun done =>
        Returned (Holds .id) (encodeInput (asHandle load) inputText len addSpecialTokens flags)
          done * HandleAt p load :=
  ffiCall_writeSlot (Holds .id) holds_null boxSlice_spec
    (openHandle_spec.bind_eq Triple.ret_eq)

/-! ### Batches -/

theorem handOver_spec (batch : List (List UInt32)) :
    Triple 1 (handOver batch : Prog crates (List Slice)) fun slots =>
      HoldsAll .id slots (batch.map some) := by
  induction batch with
  | nil => exact Triple.ret_of (le_refl 1)
  | cons ids batch ih =>
    refine (boxSlice_spec ids).bind fun slot => ?_
    have hrest := ih.frame (Holds .id slot (some ids))
    rw [one_mul] at hrest
    exact hrest.bind fun slots => Triple.ret_of (le_of_eq (mul_comm _ _))

/-- The slots of a batch hold one list of ids each, or nothing. -/
def HoldsBatch (numSeqs : Nat) (slots : List Slice) (batch : Option (List (List UInt32))) :
    Assn crates :=
  HoldsAll .id slots ((batch.map (List.map some)).getD (List.replicate numSeqs none))

/-- There is a slot for every sequence. -/
theorem length_of_holdsBatch (haligned : crates.BatchAligned) {texts : List (Option Bytes)}
    {lens : List Nat} {numSeqs : Nat} {addSpecialTokens : Int32} {flags : UInt32}
    {slots : List Slice} (htexts : texts.length = numSeqs) (hlens : lens.length = numSeqs)
    {fragment : Fragment (Block crates)}
    (h : HoldsBatch numSeqs slots
      (resultOf (encodeInputs (asHandle load) texts lens numSeqs addSpecialTokens flags))
      fragment) : numSeqs = slots.length := by
  rw [length_of_holdsAll h]
  cases hresult : encodeInputs (asHandle load) texts lens numSeqs addSpecialTokens flags with
  | error abort => exact (List.length_replicate ..).symm
  | ok batch =>
    show numSeqs = (batch.map some).length
    rw [List.length_map, length_of_encodeInputs haligned hresult, List.length_take,
      List.length_zip]
    omega

/-- **`tokenizers_encode_batch`** hands over the ids of every text, or a message.  There is
a text and a slot for every sequence. -/
theorem tokenizersEncodeBatch_spec (haligned : crates.BatchAligned) {texts : List (Option Bytes)}
    {lens : List Nat} {numSeqs : Nat} (addSpecialTokens : Int32) (flags : UInt32)
    {slots : List Slice} (hnum : numSeqs ≠ 0) (htexts : numSeqs = texts.length)
    (hlens : numSeqs = lens.length) (hslots : numSeqs = slots.length) :
    Triple (HandleAt p load)
      (tokenizersEncodeBatch p (some texts) (some lens) numSeqs addSpecialTokens flags
        (some slots) (some error)) fun done =>
          Returned (HoldsBatch numSeqs)
            (encodeInputs (asHandle load) texts lens numSeqs addSpecialTokens flags) done *
              HandleAt p load := by
  rw [tokenizersEncodeBatch, if_neg hnum]
  refine ffiCall_returned (HoldsBatch numSeqs) (openHandle_spec.bind_eq ?_)
  have hcleared : overwrite (List.replicate numSeqs Slice.null) slots =
      List.replicate numSeqs .null :=
    overwrite_of_length (by rw [List.length_replicate, hslots])
  cases hresult : encodeInputs (asHandle load) texts lens numSeqs addSpecialTokens flags with
  | error abort =>
    refine Triple.ret_of (le_fact_mul rfl (le_mul_of_one_le_left' ?_))
    rw [hcleared]
    exact holdsAll_null numSeqs
  | ok batch =>
    have hlength : batch.length = numSeqs := by
      rw [length_of_encodeInputs haligned hresult, List.length_take, List.length_zip]
      omega
    refine (handOver_spec batch).step_one fun boxed => Triple.ret_of (le_fact_mul rfl ?_)
    refine mul_le_mul_left (fun part h => ?_) (HandleAt p load)
    -- there is a box for every slot
    have hboxed : boxed.length = numSeqs := by
      rw [length_of_holdsAll h, List.length_map, hlength]
    rw [hcleared, overwrite_of_length (by rw [hboxed, List.length_replicate])]
    exact h

end Handles

/-! ### Release -/

section Release
variable {α : Type} {elem : Element crates α} {slice : Slice} {content : Option (List α)}
  {p : Pointer} {load : Option (Load crates)}

theorem freeSlice_spec :
    Triple (Holds elem slice content) (freeSlice elem slice) fun slot => fact (slot = .null) := by
  cases content with
  | none =>
    refine Triple.of_fact_only fun hslice => ?_
    rw [freeSlice, if_pos (by rw [hslice]; rfl)]
    exact Triple.ret_of (le_of_eq (fact_of hslice).symm)
  | some xs =>
    have hdrop : Triple (Holds elem slice (some xs))
        (dropSlice elem slice >>= fun _ => pure Slice.null) fun slot => fact (slot = .null) :=
      dropSlice_spec.bind fun _ => Triple.ret_of (le_of_eq (fact_of rfl).symm)
    refine of_holds (fun hnil hslice => ?_) fun a hne hslice => ?_
    · have hnew := hdrop.pre (hslice ▸ hnil ▸ holds_empty)
      rwa [freeSlice, if_neg (by rw [hslice]; exact nofun)]
    · have hold := hdrop.pre (hslice ▸ holds_block hne)
      rwa [freeSlice, if_neg (by rw [hslice]; exact nofun)]

theorem freeEncodeResultsLoop_spec {slots : List Slice} {contents : List (Option (List UInt32))} :
    Triple (HoldsAll .id slots contents : Assn crates) (freeEncodeResultsLoop slots) fun freed =>
      fact (freed = List.replicate slots.length .null) := by
  induction slots generalizing contents with
  | nil => exact Triple.ret_of fun _ h => ⟨rfl, empty_of_holdsAll h⟩
  | cons slot slots ih =>
    cases contents with
    | nil => exact Triple.of_fact_only fun h => absurd h id
    | cons content contents =>
      refine freeSlice_spec.step fun freed => Triple.of_fact fun hfreed => ?_
      refine ih.bind fun rest => Triple.of_fact_only fun hrest => ?_
      exact Triple.ret_of (le_of_eq (fact_of (by rw [hfreed, hrest]; rfl)).symm)

/-- **`tokenizers_free_encode_results`** gives every slot of an array back, and clears it. -/
theorem tokenizersFreeEncodeResults_spec {slots : List Slice}
    (contents : List (Option (List UInt32))) {numSeqs : Nat} (hnum : numSeqs = slots.length) :
    Triple (HoldsAll .id slots contents : Assn crates)
      (tokenizersFreeEncodeResults (some slots) numSeqs) fun freed =>
        fact (freed = some (List.replicate numSeqs .null)) := by
  subst hnum
  by_cases hzero : slots.length = 0
  · obtain rfl := List.length_eq_zero_iff.mp hzero
    exact Triple.ret_of fun _ h => ⟨rfl, empty_of_holdsAll h⟩
  · rw [tokenizersFreeEncodeResults, if_neg hzero, List.take_length]
    refine freeEncodeResultsLoop_spec.bind fun freed => Triple.of_fact_only fun hfreed => ?_
    refine Triple.ret_of (le_of_eq (fact_of ?_).symm)
    rw [overwrite_of_length (by rw [hfreed, List.length_replicate]), hfreed]

/-- **`tokenizers_free_error_message`** gives the message back, and clears the slot. -/
theorem tokenizersFreeErrorMessage_spec {content : Option Bytes} :
    Triple (Holds .byte slice content : Assn crates) (tokenizersFreeErrorMessage (some slice))
      fun slot => fact (slot = some .null) := by
  refine freeSlice_spec.bind fun slot => Triple.of_fact_only fun hslot => ?_
  exact Triple.ret_of (le_of_eq (fact_of (congrArg some hslot)).symm)

/-- **`tokenizers_free`** gives back the wrapper and its two strings. -/
theorem tokenizersFree_spec : Triple (HandleAt p load) (tokenizersFree p) fun _ => 1 := by
  cases load with
  | none =>
    refine Triple.of_fact_only fun hp => ?_
    subst hp
    exact Triple.ret_of (le_refl 1)
  | some load =>
    refine of_handleAt fun a w d i hp _ => ?_
    subst hp
    refine loadWrapper_spec.step_eq ?_
    rw [mul_comm, mul_assoc]
    refine dropSlice_spec.step fun _ => ?_
    rw [one_mul]
    refine dropSlice_spec.step fun _ => ?_
    rw [one_mul]
    exact Triple.free

end Release

/-! ### Decoding and lookup -/

section Lookup
variable {a : Nat} {w : Wrapper crates} {d i : Bytes}

theorem assignString_spec {field : Slice} {old : Bytes} (text : String) :
    Triple (Holds .byte field (some old)) (assignString field text : Prog crates Slice)
      fun new => Holds .byte new (some (strBytes text)) := by
  refine (boxSlice_spec (strBytes text)).step_one fun new => ?_
  rw [mul_comm]
  refine dropSlice_spec.step fun _ => ?_
  rw [one_mul]
  exact Triple.ret_of (le_refl _)

theorem decodeInto_spec (ids : List UInt32) (skipSpecialTokens : Bool) :
    Triple (WrapperAt a w d i) (decodeInto a ids skipSpecialTokens) fun _ => ex fun decodeStr =>
      WrapperAt a { w with decodeStr }
        (strBytes (w.load.wrapper.decodedText ids skipSpecialTokens)) i := by
  refine loadWrapper_spec.step_eq ?_
  rw [mul_left_comm]
  refine (assignString_spec _).step fun decodeStr => ?_
  rw [mul_left_comm]
  exact ((Triple.store _).frame _).post fun _ => le_ex decodeStr (le_refl _)

/-- All ids are decoded. -/
theorem tokenizersDecode_block (ids : List UInt32) {len : Nat} (hlen : len = ids.length)
    (skipSpecialTokens : Int32) :
    (tokenizersDecode (.block a) (some ids) len skipSpecialTokens : Prog crates Unit) =
      decodeInto a ids (skipSpecialTokens != 0) := by
  by_cases hzero : len = 0
  · obtain rfl := List.length_eq_zero_iff.mp (hlen.symm.trans hzero)
    rw [tokenizersDecode, if_pos hzero]
  · rw [tokenizersDecode, if_neg hzero, hlen, List.take_length]

/-- **`tokenizers_decode`** leaves the decoded text in the scratch string. -/
theorem tokenizersDecode_spec (ids : List UInt32) {len : Nat} (hlen : len = ids.length)
    (skipSpecialTokens : Int32) :
    Triple (WrapperAt a w d i) (tokenizersDecode (.block a) (some ids) len skipSpecialTokens)
      fun _ => ex fun decodeStr => WrapperAt a { w with decodeStr }
        (strBytes (w.load.wrapper.decodedText ids (skipSpecialTokens != 0))) i := by
  rw [tokenizersDecode_block ids hlen]
  exact decodeInto_spec ids (skipSpecialTokens != 0)

/-- **`tokenizers_get_decode_str`** returns a view of it. -/
theorem tokenizersGetDecodeStr_spec (out : Option Slice) :
    Triple (WrapperAt a w d i) (tokenizersGetDecodeStr (.block a) (some out)) fun view =>
      fact (view = some (some w.decodeStr)) * WrapperAt a w d i :=
  loadWrapper_spec.step_eq Triple.ret_eq

/-- The view is read while the string is not assigned. -/
theorem readDecodeStr_spec :
    Triple (WrapperAt a w d i) (readSlice .byte w.decodeStr) fun text =>
      fact (text = d) * WrapperAt a w d i := by
  have hview : Triple (Holds .byte w.decodeStr (some d) : Assn crates) _ _ := readSlice_spec
  have hread := hview.frame (pointsTo a (.wrapper w) * Holds .byte w.idToTokenResult (some i))
  refine hread.consequence (le_of_eq ?_) fun text => le_of_eq ?_
  · rw [WrapperAt]; ac_rfl
  · rw [WrapperAt]; ac_rfl

/-- **`tokenizers_id_to_token`** leaves the token in the other scratch string, and returns
a view of it. -/
theorem tokenizersIdToToken_spec (id : UInt32) (out : Option Slice) :
    Triple (WrapperAt a w d i) (tokenizersIdToToken (.block a) id (some out)) fun view =>
      ex fun token => fact (view = some (some token)) *
        WrapperAt a { w with idToTokenResult := token } d
          (strBytes (w.load.wrapper.tokenText id)) := by
  refine loadWrapper_spec.step_eq ?_
  rw [mul_comm, mul_assoc, mul_comm, mul_assoc]
  refine (assignString_spec _).step fun token => ?_
  rw [mul_comm, mul_assoc]
  refine (Triple.store _).step fun _ => ?_
  exact Triple.ret_of (le_ex token (le_fact_mul rfl (le_refl _)))

/-- The view is read while this string is not assigned. -/
theorem readIdToTokenResult_spec :
    Triple (WrapperAt a w d i) (readSlice .byte w.idToTokenResult) fun text =>
      fact (text = i) * WrapperAt a w d i := by
  have hview : Triple (Holds .byte w.idToTokenResult (some i) : Assn crates) _ _ := readSlice_spec
  have hread := hview.frame (pointsTo a (.wrapper w) * Holds .byte w.decodeStr (some d))
  refine hread.consequence (le_of_eq ?_) fun text => le_of_eq ?_
  · rw [WrapperAt]; ac_rfl
  · rw [WrapperAt]; ac_rfl

theorem tokenizersGetVocabSize_spec (size : Option Nat) :
    Triple (WrapperAt a w d i) (tokenizersGetVocabSize (.block a) (some size)) fun size =>
      fact (size = some (some (crates.getVocabSize w.tokenizer true))) * WrapperAt a w d i :=
  loadWrapper_spec.step_eq Triple.ret_eq

theorem tokenizersTokenToId_spec (token : Option Bytes) (len : Nat) (outId : Option Int32) :
    Triple (WrapperAt a w d i) (tokenizersTokenToId (.block a) token len (some outId)) fun id =>
      fact (id = some (some ((TokenizersCpp.tokenizersTokenToId (asHandle (some w.load)) token len
        (some 0)).getD 0))) * WrapperAt a w d i := by
  refine loadWrapper_spec.step_eq ?_
  cases htoken : inputStr crates.utf8Error token len "Token" with
  | error abort =>
    refine Triple.ret_of (le_fact_mul ?_ (le_refl _))
    simp only [TokenizersCpp.tokenizersTokenToId, asHandle, Option.map_some, htoken,
      Option.getD_some]
  | ok token =>
    refine Triple.ret_of (le_fact_mul ?_ (le_refl _))
    simp only [TokenizersCpp.tokenizersTokenToId, asHandle, Option.map_some, htoken,
      Option.getD_some]
    rfl

end Lookup

end Raw

end TokenizersCpp
