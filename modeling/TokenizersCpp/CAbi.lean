import TokenizersCpp.Wrapper

/-!
# The C entry points

The `extern "C"` functions of `rust/src/lib.rs`.  A nullable pointer is an
`Option`; an output slot is passed by its previous contents and returned with
its new ones; an array argument is the list of its cells, the first `num_seqs`
of which the call uses.  `tokenizers_new_from_str`, its byte-level BPE sibling
and `tokenizers_encode` share one shape — check the slot, clear it, compute,
hand the result over — which is `writeSlot`.
-/

namespace TokenizersCpp

open Traversal

variable {crates : Crates}

/-- `TokenizerHandle`. -/
abbrev TokenizerHandle (crates : Crates) := Option (RustBox (TokenizerWrapper crates))

/-- `wrapper_from_handle(handle)`. -/
def wrapperFromHandle (handle : TokenizerHandle crates) : Rust (TokenizerWrapper crates) :=
  match handle with
  | none => .error (.error (.invalidArgument "Tokenizer handle is null"))
  | some box => .ok box.value

/-- The closure of an entry point with one output slot: a null slot is an error;
otherwise the slot is cleared, and filled if the computation returns. -/
def writeSlot {S α : Type} (nullMessage : String) (null : S) (fill : RustBox α → S)
    (out : Option S) (compute : Rust α) (σ : Ledger) : ActionEnd (Option S) :=
  match out with
  | none => ⟨.error (.error (.invalidArgument nullMessage)), none, σ⟩
  | some _ =>
      match compute with
      | .error abort => ⟨.error abort, some null, σ⟩
      | .ok a =>
          let (box, σ) := intoRaw a σ
          ⟨.ok (), some (fill box), σ⟩

section WriteSlot
variable {S α : Type} {nullMessage : String} {null slot : S} {fill : RustBox α → S}
  {compute : Rust α} {σ : Ledger}

/-- A computation that returns fills the slot with its own value. -/
theorem writeSlot_ok {a : α} (h : compute = .ok a) :
    writeSlot nullMessage null fill (some slot) compute σ =
      ⟨.ok (), some (fill (intoRaw a σ).1), (intoRaw a σ).2⟩ := by
  rw [h]
  rfl

/-- A computation that fails or panics leaves the slot cleared. -/
theorem writeSlot_abort {abort : Abort} (h : compute = .error abort) :
    writeSlot nullMessage null fill (some slot) compute σ = ⟨.error abort, some null, σ⟩ := by
  rw [h]
  rfl

end WriteSlot

/-! ## Construction -/

/-- `tokenizers_new_from_str`. -/
def tokenizersNewFromStr (inputJson : Option Bytes) (len : Nat)
    (outHandle : Option (TokenizerHandle crates)) (outError : Option TokenizerErrorMessage) :
    Ledger → FfiReturn (Option (TokenizerHandle crates)) :=
  ffiCall outError <| writeSlot "Output tokenizer handle is null" none some outHandle <| do
    let json ← inputStr crates.utf8Error inputJson len "Tokenizer JSON"
    TokenizerWrapper.fromStr crates json

/-- `byte_level_bpe_tokenizers_new_from_str`. -/
def byteLevelBpeTokenizersNewFromStr (inputVocab : Option Bytes) (vocabLen : Nat)
    (inputMerges : Option Bytes) (mergesLen : Nat) (inputAddedTokens : Option Bytes)
    (addedTokensLen : Nat) (outHandle : Option (TokenizerHandle crates))
    (outError : Option TokenizerErrorMessage) :
    Ledger → FfiReturn (Option (TokenizerHandle crates)) :=
  ffiCall outError <| writeSlot "Output tokenizer handle is null" none some outHandle <| do
    let vocab ← inputStr crates.utf8Error inputVocab vocabLen "BPE vocabulary"
    let merges ← inputStr crates.utf8Error inputMerges mergesLen "BPE merges"
    let addedTokens ←
      inputStr crates.utf8Error inputAddedTokens addedTokensLen "BPE added-token map"
    TokenizerWrapper.byteLevelBpeFromStr crates vocab merges addedTokens

/-! ## Encoding -/

/-- What `tokenizers_encode` computes between clearing and filling its slot. -/
def encodeInput (handle : TokenizerHandle crates) (inputText : Option Bytes) (len : Nat)
    (addSpecialTokens : Int32) (flags : UInt32) : Rust (List UInt32) := do
  let wrapper ← wrapperFromHandle handle
  let text ← inputStr crates.utf8Error inputText len "Encode input"
  wrapper.encode text (addSpecialTokens != 0) flags

/-- `tokenizers_encode`. -/
def tokenizersEncode (handle : TokenizerHandle crates) (inputText : Option Bytes) (len : Nat)
    (addSpecialTokens : Int32) (flags : UInt32) (outResult : Option TokenizerEncodeResult)
    (outError : Option TokenizerErrorMessage) :
    Ledger → FfiReturn (Option TokenizerEncodeResult) :=
  ffiCall outError <|
    writeSlot "Output encode result is null" .null (fun box => ⟨some box, box.value.length⟩)
      outResult (encodeInput handle inputText len addSpecialTokens flags)

section Encode
variable {handle : TokenizerHandle crates} {inputText : Option Bytes} {len : Nat}
  {addSpecialTokens : Int32} {flags : UInt32} {slot : TokenizerEncodeResult}
  {outError : Option TokenizerErrorMessage} {σ : Ledger}

theorem tokenizersEncode_ok {ids : List UInt32}
    (h : encodeInput handle inputText len addSpecialTokens flags = .ok ids) :
    tokenizersEncode handle inputText len addSpecialTokens flags (some slot) outError σ =
      ⟨.ok, some ⟨some (intoRaw ids σ).1, ids.length⟩, outError.map fun _ => .null,
        (intoRaw ids σ).2⟩ := by
  rw [tokenizersEncode, ffiCall_ok (by rw [writeSlot_ok h]), writeSlot_ok h]
  rfl

theorem tokenizersEncode_abort {abort : Abort}
    (h : encodeInput handle inputText len addSpecialTokens flags = .error abort) :
    tokenizersEncode handle inputText len addSpecialTokens flags (some slot) outError σ =
      ⟨abort.status, some .null,
        (writeErrorMessage (outError.map fun _ => .null) abort.message σ).1,
        (writeErrorMessage (outError.map fun _ => .null) abort.message σ).2⟩ := by
  rw [tokenizersEncode, ffiCall_abort (by rw [writeSlot_abort h]), writeSlot_abort h]

end Encode

/-- Writes cells into an array from index 0 on. -/
def overwrite {α : Type} (cells array : List α) : List α := cells ++ array.drop cells.length

/-- The final loop of `tokenizers_encode_batch`: each encoding is handed over in
turn. -/
def handOver : List (List UInt32) → Ledger → List TokenizerEncodeResult × Ledger
  | [], σ => ([], σ)
  | encoded :: batch, σ =>
      let (tokenIds, σ) := intoRaw encoded σ
      let (results, σ) := handOver batch σ
      (⟨some tokenIds, encoded.length⟩ :: results, σ)

theorem overwrite_of_length {α : Type} {cells array : List α}
    (h : cells.length = array.length) : overwrite cells array = cells := by
  rw [overwrite, h, List.drop_length, List.append_nil]

theorem take_overwrite {α : Type} {cells : List α} {n : Nat} (array : List α)
    (h : cells.length = n) : (overwrite cells array).take n = cells := by
  rw [overwrite, ← h, List.take_left]

theorem length_handOver (batch : List (List UInt32)) (σ : Ledger) :
    (handOver batch σ).1.length = batch.length := by
  induction batch generalizing σ with
  | nil => rfl
  | cons encoded batch ih => exact congrArg Nat.succ (ih _)

/-- Each slot holds the ids of its encoding. -/
theorem forall₂_handOver (batch : List (List UInt32)) (σ : Ledger) :
    List.Forall₂ (fun slot ids => ∃ box, slot = ⟨some box, ids.length⟩ ∧ box.value = ids)
      (handOver batch σ).1 batch := by
  induction batch generalizing σ with
  | nil => exact .nil
  | cons ids batch ih => exact .cons ⟨(intoRaw ids σ).1, rfl, rfl⟩ (ih _)

/-- What `tokenizers_encode_batch` computes between clearing and filling its
slots, for the input arrays `texts` and `lens`. -/
def encodeInputs (handle : TokenizerHandle crates) (texts : List (Option Bytes))
    (lens : List Nat) (numSeqs : Nat) (addSpecialTokens : Int32) (flags : UInt32) :
    Rust (List (List UInt32)) := do
  let wrapper ← wrapperFromHandle handle
  let texts ← ((texts.zip lens).take numSeqs).mapM fun input =>
    inputStr crates.utf8Error input.1 input.2 "Batch encode input"
  wrapper.encodeBatch texts (addSpecialTokens != 0) flags

theorem encodeInputs_eq_ok {handle : TokenizerHandle crates} {texts : List (Option Bytes)}
    {lens : List Nat} {numSeqs : Nat} {addSpecialTokens : Int32} {flags : UInt32}
    {batch : List (List UInt32)} :
    encodeInputs handle texts lens numSeqs addSpecialTokens flags = .ok batch ↔
      ∃ wrapper, wrapperFromHandle handle = .ok wrapper ∧
        ∃ inputs, (((texts.zip lens).take numSeqs).mapM fun input =>
            inputStr crates.utf8Error input.1 input.2 "Batch encode input") = .ok inputs ∧
          wrapper.encodeBatch inputs (addSpecialTokens != 0) flags = .ok batch := by
  rw [encodeInputs, bind_eq_ok]
  exact exists_congr fun _ => and_congr_right fun _ => bind_eq_ok

/-- A batch that returns has one list of ids for each text. -/
theorem length_of_encodeInputs (haligned : crates.BatchAligned) {handle : TokenizerHandle crates}
    {texts : List (Option Bytes)} {lens : List Nat} {numSeqs : Nat} {addSpecialTokens : Int32}
    {flags : UInt32} {batch : List (List UInt32)}
    (h : encodeInputs handle texts lens numSeqs addSpecialTokens flags = .ok batch) :
    batch.length = ((texts.zip lens).take numSeqs).length := by
  obtain ⟨wrapper, -, inputs, hinputs, hbatch⟩ := encodeInputs_eq_ok.mp h
  obtain ⟨tokenizer, -, hcrate⟩ := TokenizerWrapper.encodeBatch_eq_ok.mp hbatch
  rw [haligned _ _ _ _ hcrate, length_of_mapM hinputs]

/-- The closure of `tokenizers_encode_batch`.  The null check of the arrays comes
before the loop that clears the slots. -/
def encodeBatchAction (handle : TokenizerHandle crates) (inputTexts : Option (List (Option Bytes)))
    (inputLens : Option (List Nat)) (numSeqs : Nat) (addSpecialTokens : Int32) (flags : UInt32)
    (outResults : Option (List TokenizerEncodeResult)) (σ : Ledger) :
    ActionEnd (Option (List TokenizerEncodeResult)) :=
  if numSeqs = 0 then
    match encodeInputs handle [] [] 0 addSpecialTokens flags with
    | .error abort => ⟨.error abort, outResults, σ⟩
    | .ok _ => ⟨.ok (), outResults, σ⟩
  else
    match inputTexts, inputLens, outResults with
    | some texts, some lens, some results =>
        -- from here on no failure leaves an old result in a slot
        let results := overwrite (List.replicate numSeqs .null) results
        match encodeInputs handle texts lens numSeqs addSpecialTokens flags with
        | .error abort => ⟨.error abort, some results, σ⟩
        | .ok encodedBatch =>
            let (boxedResults, σ) := handOver encodedBatch σ
            ⟨.ok (), some (overwrite boxedResults results), σ⟩
    | _, _, _ =>
        -- the slots of a non-null result array are not cleared here
        ⟨.error (.error (.invalidArgument "Batch input or output array is null")), outResults, σ⟩

/-- `tokenizers_encode_batch`. -/
def tokenizersEncodeBatch (handle : TokenizerHandle crates)
    (inputTexts : Option (List (Option Bytes))) (inputLens : Option (List Nat)) (numSeqs : Nat)
    (addSpecialTokens : Int32) (flags : UInt32)
    (outResults : Option (List TokenizerEncodeResult))
    (outError : Option TokenizerErrorMessage) :
    Ledger → FfiReturn (Option (List TokenizerEncodeResult)) :=
  ffiCall outError <|
    encodeBatchAction handle inputTexts inputLens numSeqs addSpecialTokens flags outResults

/-- With `num_seqs = 0` the arrays and slots are not looked at. -/
theorem encodeBatchAction_zero (handle : TokenizerHandle crates)
    (inputTexts : Option (List (Option Bytes))) (inputLens : Option (List Nat))
    (addSpecialTokens : Int32) (flags : UInt32)
    (outResults : Option (List TokenizerEncodeResult)) (σ : Ledger) :
    encodeBatchAction handle inputTexts inputLens 0 addSpecialTokens flags outResults σ =
      ⟨(encodeInputs handle [] [] 0 addSpecialTokens flags).map fun _ => (), outResults, σ⟩ := by
  simp only [encodeBatchAction, if_true]
  cases encodeInputs handle [] [] 0 addSpecialTokens flags <;> rfl

/-- With a null array among the three nothing is written. -/
theorem encodeBatchAction_null {handle : TokenizerHandle crates}
    {inputTexts : Option (List (Option Bytes))} {inputLens : Option (List Nat)} {numSeqs : Nat}
    {addSpecialTokens : Int32} {flags : UInt32}
    {outResults : Option (List TokenizerEncodeResult)} {σ : Ledger} (hnum : numSeqs ≠ 0)
    (hnull : inputTexts = none ∨ inputLens = none ∨ outResults = none) :
    encodeBatchAction handle inputTexts inputLens numSeqs addSpecialTokens flags outResults σ =
      ⟨.error (.error (.invalidArgument "Batch input or output array is null")), outResults,
        σ⟩ := by
  unfold encodeBatchAction
  rw [if_neg hnum]
  rcases hnull with rfl | rfl | rfl
  · rfl
  · cases inputTexts <;> rfl
  · cases inputTexts <;> cases inputLens <;> rfl

section EncodeBatch
variable {handle : TokenizerHandle crates} {texts : List (Option Bytes)} {lens : List Nat}
  {numSeqs : Nat} {addSpecialTokens : Int32} {flags : UInt32}
  {results : List TokenizerEncodeResult} {outError : Option TokenizerErrorMessage} {σ : Ledger}

/-- A batch whose computation returns is handed over into the cleared slots. -/
theorem encodeBatchAction_ok (hnum : numSeqs ≠ 0) {batch : List (List UInt32)}
    (h : encodeInputs handle texts lens numSeqs addSpecialTokens flags = .ok batch) :
    encodeBatchAction handle (some texts) (some lens) numSeqs addSpecialTokens flags
        (some results) σ =
      ⟨.ok (), some (overwrite (handOver batch σ).1
        (overwrite (List.replicate numSeqs .null) results)), (handOver batch σ).2⟩ := by
  simp only [encodeBatchAction, if_neg hnum, h]

/-- A batch whose computation fails or panics leaves the slots cleared. -/
theorem encodeBatchAction_abort (hnum : numSeqs ≠ 0) {abort : Abort}
    (h : encodeInputs handle texts lens numSeqs addSpecialTokens flags = .error abort) :
    encodeBatchAction handle (some texts) (some lens) numSeqs addSpecialTokens flags
        (some results) σ =
      ⟨.error abort, some (overwrite (List.replicate numSeqs .null) results), σ⟩ := by
  simp only [encodeBatchAction, if_neg hnum, h]

theorem tokenizersEncodeBatch_ok (hnum : numSeqs ≠ 0) {batch : List (List UInt32)}
    (h : encodeInputs handle texts lens numSeqs addSpecialTokens flags = .ok batch) :
    tokenizersEncodeBatch handle (some texts) (some lens) numSeqs addSpecialTokens flags
        (some results) outError σ =
      ⟨.ok, some (overwrite (handOver batch σ).1
        (overwrite (List.replicate numSeqs .null) results)), outError.map fun _ => .null,
        (handOver batch σ).2⟩ := by
  rw [tokenizersEncodeBatch, ffiCall_ok (by rw [encodeBatchAction_ok hnum h]),
    encodeBatchAction_ok hnum h]

theorem tokenizersEncodeBatch_abort (hnum : numSeqs ≠ 0) {abort : Abort}
    (h : encodeInputs handle texts lens numSeqs addSpecialTokens flags = .error abort) :
    tokenizersEncodeBatch handle (some texts) (some lens) numSeqs addSpecialTokens flags
        (some results) outError σ =
      ⟨abort.status, some (overwrite (List.replicate numSeqs .null) results),
        (writeErrorMessage (outError.map fun _ => .null) abort.message σ).1,
        (writeErrorMessage (outError.map fun _ => .null) abort.message σ).2⟩ := by
  rw [tokenizersEncodeBatch, ffiCall_abort (by rw [encodeBatchAction_abort hnum h]),
    encodeBatchAction_abort hnum h]

end EncodeBatch

/-! ## Release -/

/-- One iteration of the loop of `tokenizers_free_encode_results`. -/
def freeEncodeResult (result : TokenizerEncodeResult) (σ : Ledger) :
    TokenizerEncodeResult × Ledger :=
  match result.tokenIds with
  | none => (result, σ)
  | some tokenIds => (.null, dropRaw tokenIds σ)

/-- The loop of `tokenizers_free_encode_results`. -/
def freeEncodeResultsLoop : List TokenizerEncodeResult → Ledger →
    List TokenizerEncodeResult × Ledger
  | [], σ => ([], σ)
  | result :: results, σ =>
      let (result, σ) := freeEncodeResult result σ
      let (results, σ) := freeEncodeResultsLoop results σ
      (result :: results, σ)

/-- `tokenizers_free_encode_results(results, num_seqs)`. -/
def tokenizersFreeEncodeResults (results : Option (List TokenizerEncodeResult)) (numSeqs : Nat)
    (σ : Ledger) : Option (List TokenizerEncodeResult) × Ledger :=
  match results with
  | none => (none, σ)
  | some results =>
      if numSeqs = 0 then
        (some results, σ)
      else
        let (freed, σ) := freeEncodeResultsLoop (results.take numSeqs) σ
        (some (overwrite freed results), σ)

/-- `tokenizers_free_error_message(error)`. -/
def tokenizersFreeErrorMessage (error : Option TokenizerErrorMessage) (σ : Ledger) :
    Option TokenizerErrorMessage × Ledger :=
  match error with
  | none => (none, σ)
  | some message =>
      match message.data with
      | none => (some message, σ)
      | some data => (some .null, dropRaw data σ)

/-- `tokenizers_free(wrapper)`. -/
def tokenizersFree (handle : TokenizerHandle crates) (σ : Ledger) : Ledger :=
  match handle with
  | none => σ
  | some box => dropRaw box σ

/-! ## Decoding and lookup -/

/-- `tokenizers_decode`: the handle with its new wrapper. -/
def tokenizersDecode (handle : TokenizerHandle crates) (inputIds : Option (List UInt32))
    (len : Nat) (skipSpecialTokens : Int32) : TokenizerHandle crates :=
  match handle with
  | none => none
  | some box =>
      if len = 0 then
        some { box with value := box.value.decode [] (skipSpecialTokens != 0) }
      else
        match inputIds with
        | none => some box  -- a plain return: the text of the last call stays
        | some ids =>
            some { box with value := box.value.decode (ids.take len) (skipSpecialTokens != 0) }

/-- `tokenizers_get_decode_str`: the cells `*out_cstr` and `*out_len`. -/
def tokenizersGetDecodeStr (handle : TokenizerHandle crates) (outCstr outLen : Option Nat) :
    Option Nat × Option Nat :=
  match handle, outCstr, outLen with
  | some box, some _, some _ => (some box.value.decodeStr.view.1, some box.value.decodeStr.view.2)
  | _, _, _ => (outCstr, outLen)

/-- `tokenizers_get_vocab_size`: the cell `*size`. -/
def tokenizersGetVocabSize (handle : TokenizerHandle crates) (size : Option Nat) : Option Nat :=
  match handle, size with
  | some box, some _ => some (crates.getVocabSize box.value.tokenizer true)
  | _, _ => size

/-- `tokenizers_id_to_token`: the handle with its new wrapper, and the cells
`*out_cstr` and `*out_len`. -/
def tokenizersIdToToken (handle : TokenizerHandle crates) (id : UInt32)
    (outCstr outLen : Option Nat) : TokenizerHandle crates × Option Nat × Option Nat :=
  match handle, outCstr, outLen with
  | some box, some _, some _ =>
      let token := crates.idToToken box.value.tokenizer id
      let scratch := box.value.idToTokenResult.assign (token.getD "")
      (some { box with value := { box.value with idToTokenResult := scratch } },
        some scratch.view.1, some scratch.view.2)
  | _, _, _ => (handle, outCstr, outLen)

/-- `i32::try_from` on a `u32`. -/
def i32TryFrom (value : UInt32) : Option Int32 :=
  if value.toNat < 2 ^ 31 then some value.toInt32 else none

/-- `tokenizers_token_to_id`: the cell `*out_id`. -/
def tokenizersTokenToId (handle : TokenizerHandle crates) (token : Option Bytes) (len : Nat)
    (outId : Option Int32) : Option Int32 :=
  match handle, outId with
  | some box, some _ =>
      match inputStr crates.utf8Error token len "Token" with
      | .error _ => some (-1)
      -- an id above `i32::MAX` is reported as missing, too
      | .ok token =>
          let id := crates.tokenToId box.value.tokenizer token
          some ((id.bind i32TryFrom).getD (-1))
  | _, _ => outId

end TokenizersCpp
