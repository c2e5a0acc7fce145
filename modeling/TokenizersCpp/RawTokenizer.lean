import TokenizersCpp.RawAbi

/-!
# The Hugging Face backend over memory

`huggingface_tokenizer.cc` again, with the results, messages and scratch strings of Rust
in memory.  A method reads them through pointers, and its destructors give them back.
Each method has one specification: on a live handle it returns what the method of
`HuggingFace` returns on the same load, and of all memory only the handle is left.
-/

namespace TokenizersCpp

open Separation Separation.Assn Traversal

namespace Raw

variable {crates : Crates} {α : Type}

/-! ## Errors -/

/-- `ErrorMessage::str()`.  The text of an exception is a `String`, as Rust wrote it. -/
def errorStr (message : Slice) : Prog crates String :=
  if message.data = .null ∨ message.len = 0 then
    return "Tokenizer backend failed without an error message"
  else do
    match fromUtf8 (← readSlice .byte message) with
    | some text => return text
    | none => Prog.fault

/-- `ThrowStatus(status, error)`. -/
def throwStatus (status : TokenizerStatus) (error : Slice) : Prog crates CppException := do
  let message ← errorStr error
  match status with
  | .invalidArgument => return .tokenizerError .kInvalidArgument message
  | .unsupported => return .tokenizerError .kUnsupportedOperation message
  | .internal => return .tokenizerError .kInternal message
  | .ok => return .tokenizerError .kInternal "Tokenizer reported success through its error path"

/-- `CheckStatus(status, error)`, and what comes after it if it does not throw. -/
def checkStatus (status : TokenizerStatus) (error : Slice)
    (next : Prog crates (Except CppException α)) : Prog crates (Except CppException α) :=
  if status ≠ .ok then do
    let thrown ← throwStatus status error
    return .error thrown
  else
    next

/-- `ConvertResult(result)`. -/
def convertResult (result : Slice) : Prog crates (Except CppException (List Int32)) :=
  if result.len ≠ 0 ∧ result.data = .null then
    return .error (.tokenizerError .kInternal
      "Tokenizer returned a null token buffer with non-zero length")
  else do
    let ids ← readSlice .id result
    return ids.mapM convertId

/-- The converting loop of `EncodeBatchImpl`; it ends at the first exception. -/
def convertResults : List Slice → Prog crates (Except CppException (List (List Int32)))
  | [] => return .ok []
  | result :: results => do
      match ← convertResult result with
      | .error e => return .error e
      | .ok ids => do
          let converted ← convertResults results
          return converted.map (ids :: ·)

/-! ## The tokenizer -/

/-- `HFTokenizer`. -/
structure HFTokenizer where
  handle : Pointer
  supportsEncodeFlags : Bool

/-- `std::string(data, len)` for the two cells that a getter was given; cells that nothing
was written to have no value. -/
def copyView : Option (Option Slice) → Prog crates Bytes
  | some (some view) => readSlice .byte view
  | _ => Prog.fault

/-- The value of a cell that a getter was given. -/
def cellValue : Option (Option α) → Prog crates α
  | some (some a) => return a
  | _ => Prog.fault

namespace HFTokenizer

open TokenizersCpp.HFTokenizer (intOfBool)

/-- `EncodeImpl(text, options)`. -/
def encodeImpl (t : HFTokenizer) (text : Bytes) (options : EncodeOptions) :
    Prog crates (Except CppException (List Int32)) := do
  let done ← tokenizersEncode t.handle (some text) text.length
    (intOfBool options.addSpecialTokens) options.flags.bits (some .null) (some .null)
  let results := done.slots.getD .null
  let error := done.error.getD .null
  let outcome ← checkStatus done.status error (convertResult results)
  -- the destructors of `error` and `results` run on every exit
  let _ ← tokenizersFreeErrorMessage (some error)
  let _ ← tokenizersFreeEncodeResults (some [results]) 1
  return outcome

/-- `EncodeBatchImpl(texts, options)`. -/
def encodeBatchImpl (t : HFTokenizer) (texts : List Bytes) (options : EncodeOptions) :
    Prog crates (Except CppException (List (List Int32))) :=
  if texts.isEmpty then
    return .ok []
  else do
    let done ← tokenizersEncodeBatch t.handle (some (texts.map some))
      (some (texts.map List.length)) texts.length (intOfBool options.addSpecialTokens)
      options.flags.bits (some (List.replicate texts.length .null)) (some .null)
    let results := done.slots.getD []
    let error := done.error.getD .null
    let outcome ← checkStatus done.status error (convertResults results)
    let _ ← tokenizersFreeErrorMessage (some error)
    let _ ← tokenizersFreeEncodeResults (some results) texts.length
    return outcome

/-- `Decode(ids, skip_special_tokens)`. -/
def decode (t : HFTokenizer) (ids : List Int32) (skipSpecialTokens : Bool) :
    Prog crates Bytes := do
  tokenizersDecode t.handle (some (ids.map Int32.toUInt32)) ids.length
    (intOfBool skipSpecialTokens)
  let view ← tokenizersGetDecodeStr t.handle (some none)
  copyView view

/-- `GetVocabSize()`; the assertion on the size is left to its callers. -/
def getVocabSize (t : HFTokenizer) : Prog crates Nat := do
  let size ← tokenizersGetVocabSize t.handle (some none)
  cellValue size

/-- `IdToToken(id)`. -/
def idToToken (t : HFTokenizer) (id : Int32) : Prog crates Bytes := do
  let view ← tokenizersIdToToken t.handle id.toUInt32 (some none)
  copyView view

/-- `TokenToId(token)`. -/
def tokenToId (t : HFTokenizer) (token : Bytes) : Prog crates Int32 := do
  let id ← tokenizersTokenToId t.handle (some token) token.length (some none)
  cellValue id

/-- `~HFTokenizer()`. -/
def destroy (t : HFTokenizer) : Prog crates Unit :=
  if t.handle = .null then return () else tokenizersFree t.handle

/-! ## Factories -/

/-- The end of both factories; `newFails` says that the allocation of the C++ object
throws. -/
def fromHandle (newFails : Bool) (nullMessage : String) (handle : Pointer)
    (supportsEncodeFlags : Bool) : Prog crates (Except CppException HFTokenizer) :=
  if handle = .null then
    return .error (.tokenizerError .kInternal nullMessage)
  else if newFails then do
    -- the exception unwinds through the `HandleOwner`
    tokenizersFree handle
    return .error (.stdException "std::bad_alloc")
  else
    return .ok ⟨handle, supportsEncodeFlags⟩

/-- What both factories do with the return of their entry point. -/
def fromReturn (newFails : Bool) (nullMessage : String) (supportsEncodeFlags : Bool)
    (done : FfiReturn (Option Pointer)) : Prog crates (Except CppException HFTokenizer) := do
  let error := done.error.getD .null
  let outcome ← checkStatus done.status error <|
    fromHandle newFails nullMessage (done.slots.getD .null) supportsEncodeFlags
  let _ ← tokenizersFreeErrorMessage (some error)
  return outcome

/-- `Tokenizer::FromBlobJSON(json)`. -/
def fromBlobJSON (newFails : Bool) (json : Bytes) :
    Prog crates (Except CppException HFTokenizer) := do
  let done ← tokenizersNewFromStr (some json) json.length (some .null) (some .null)
  fromReturn newFails "Tokenizer factory succeeded with a null handle" true done

/-- `Tokenizer::FromBlobByteLevelBPE(vocab, merges, added_tokens)`. -/
def fromBlobByteLevelBPE (newFails : Bool) (vocab merges addedTokens : Bytes) :
    Prog crates (Except CppException HFTokenizer) := do
  let done ← byteLevelBpeTokenizersNewFromStr (some vocab) vocab.length (some merges)
    merges.length (some addedTokens) addedTokens.length (some .null) (some .null)
  fromReturn newFails "BPE tokenizer factory succeeded with a null handle" false done

end HFTokenizer

/-! ## Specifications -/

section Errors
variable {β : Type} {error : Slice} {P : Assn crates}

theorem length_strBytes (text : String) : (strBytes text).length = text.utf8ByteSize := by
  rw [strBytes, Array.length_toList, ByteArray.size_data]
  exact String.size_toByteArray

/-- A message that the box holds is read back; an empty one counts as none. -/
theorem errorStr_spec (text : String) :
    Triple (Holds .byte error (some (strBytes text)) : Assn crates) (errorStr error) fun message =>
      fact (message = if text.utf8ByteSize = 0 then
        "Tokenizer backend failed without an error message" else text) *
          Holds .byte error (some (strBytes text)) := by
  by_cases hempty : text.utf8ByteSize = 0
  · have hlen : strBytes text = [] := List.length_eq_zero_iff.mp (by rw [length_strBytes, hempty])
    rw [hlen, if_pos hempty]
    refine Triple.of_fact_only fun herror => ?_
    rw [errorStr, if_pos (Or.inr (by rw [herror]; rfl))]
    exact Triple.ret_of (le_fact_mul rfl (herror ▸ holds_empty))
  · rw [if_neg hempty]
    have hlen : strBytes text ≠ [] := fun hnil => hempty (by rw [← length_strBytes, hnil]; rfl)
    refine of_holds (fun hnil _ => absurd hnil hlen) fun a _ herror => ?_
    have hsome : ¬ (error.data = .null ∨ error.len = 0) := by
      rw [herror, length_strBytes]
      rintro (hnull | hzero)
      · cases hnull
      · exact hempty hzero
    rw [errorStr, if_neg hsome]
    refine (readSlice_spec.pre (herror ▸ holds_block hlen)).bind_eq ?_
    rw [fromUtf8_strBytes]
    exact Triple.ret_eq

/-- **`CheckStatus`** throws the exception of an abort, and goes on behind a result. -/
theorem checkStatus_spec {result : Rust β} {next : Prog crates (Except CppException α)}
    {Q : Except CppException α → Assn crates}
    (hok : ∀ b, result = .ok b → Triple P next Q)
    (habort : ∀ abort, result = .error abort → P ≤ Q (.error abort.exception)) :
    Triple (Holds .byte error (messageOf result) * P) (checkStatus (statusOf result) error next)
      fun outcome => Holds .byte error (messageOf result) * Q outcome := by
  cases result with
  | ok b =>
    have hframed := (hok b rfl).frame (Holds .byte error none)
    exact hframed.consequence (le_of_eq (mul_comm _ _)) fun outcome => le_of_eq (mul_comm _ _)
  | error abort =>
    have hfailed : statusOf (.error abort : Rust β) ≠ .ok := abort.status_ne_ok
    rw [checkStatus, if_pos hfailed]
    have hthrow : Triple (Holds .byte error (some (strBytes abort.message)) : Assn crates)
        (throwStatus abort.status error) fun thrown => fact (thrown = abort.exception) *
          Holds .byte error (some (strBytes abort.message)) := by
      refine (errorStr_spec abort.message).bind_eq ?_
      cases abort with
      | error e => cases e <;> exact Triple.ret_eq
      | panic payload => exact Triple.ret_eq
    exact hthrow.step_eq (Triple.ret_of (mul_le_mul_right (habort abort rfl) _))

end Errors

section Results
variable {slots : List Slice} {slice : Slice}

/-- **`ConvertResult`** converts the ids in a slot. -/
theorem convertResult_spec {ids : List UInt32} :
    Triple (Holds .id slice (some ids) : Assn crates) (convertResult slice) fun converted =>
      fact (converted = ids.mapM convertId) * Holds .id slice (some ids) := by
  have hread : ¬ (slice.len ≠ 0 ∧ slice.data = .null) → Triple
      (Holds .id slice (some ids) : Assn crates) (convertResult slice) fun converted =>
        fact (converted = ids.mapM convertId) * Holds .id slice (some ids) := by
    intro hsome
    rw [convertResult, if_neg hsome]
    exact readSlice_spec.bind_eq Triple.ret_eq
  refine of_holds (fun hnil hslice => ?_) fun a hne hslice => ?_
  · refine (hread fun h => h.1 ?_).pre (hslice ▸ hnil ▸ holds_empty)
    rw [hslice]
    rfl
  · refine (hread fun h => ?_).pre (hslice ▸ holds_block hne)
    rw [hslice] at h
    cases h.2

/-- The slots of a batch are converted one by one, up to the first exception. -/
theorem convertResults_spec {batch : List (List UInt32)} :
    Triple (HoldsAll .id slots (batch.map some) : Assn crates) (convertResults slots)
      fun converted => fact (converted = batch.mapM fun ids => ids.mapM convertId) *
        HoldsAll .id slots (batch.map some) := by
  induction slots generalizing batch with
  | nil =>
    cases batch with
    | nil => exact Triple.ret_of (le_fact_mul rfl (le_refl _))
    | cons ids batch => exact Triple.of_fact_only fun h => absurd h id
  | cons slot slots ih =>
    cases batch with
    | nil => exact Triple.of_fact_only fun h => absurd h id
    | cons ids batch =>
      refine convertResult_spec.step_eq ?_
      cases hids : ids.mapM convertId with
      | error e =>
        refine Triple.ret_of (le_fact_mul ?_ (le_refl _))
        rw [cons_error hids]
      | ok converted =>
        refine ((ih.frame (Holds .id slot (some ids))).pre (le_of_eq (mul_comm _ _))).bind
          fun rest => ?_
        rw [mul_assoc]
        refine Triple.of_fact fun hconverted => Triple.ret_of (le_fact_mul ?_ ?_)
        · rw [cons_ok hids, hconverted]
        · exact le_of_eq (mul_comm _ _)

/-- An array of one slot is given back. -/
theorem freeSlot_spec (content : Option (List UInt32)) :
    Triple (Holds .id slice content : Assn crates) (tokenizersFreeEncodeResults (some [slice]) 1)
      fun _ => 1 := by
  refine Triple.consequence (tokenizersFreeEncodeResults_spec [content] rfl) ?_ fun _ _ h => h.2
  exact le_of_eq (mul_one _).symm

end Results

/-- What `EncodeImpl` and `EncodeBatchImpl` do behind the call of Rust: the status is
checked, the result is converted, and on every exit the message and the result are given
back. -/
theorem delivery_spec {S β γ : Type} {holds : S → Option α → Assn crates} {result : Rust α}
    (convert : S → Prog crates (Except CppException β)) {f : α → Except CppException β}
    (release : S → Prog crates γ) {done : FfiReturn (Option S)} (null : S) {R : Assn crates}
    (hconvert : ∀ slot a, Triple (holds slot (some a)) (convert slot) fun converted =>
      fact (converted = f a) * holds slot (some a))
    (hrelease : ∀ slot, Triple (holds slot (resultOf result)) (release slot) fun _ => 1) :
    Triple (Returned holds result done * R)
      (do
        let outcome ← checkStatus done.status (done.error.getD .null)
          (convert (done.slots.getD null))
        let _ ← tokenizersFreeErrorMessage (some (done.error.getD .null))
        let _ ← release (done.slots.getD null)
        return outcome)
      fun outcome => fact (outcome = TokenizersCpp.HFTokenizer.delivered result >>= f) * R := by
  refine of_returned fun slot error hdone => ?_
  subst hdone
  have hcheck : Triple (Holds .byte error (messageOf result) * holds slot (resultOf result))
      (checkStatus (statusOf result) error (convert slot)) fun outcome =>
        Holds .byte error (messageOf result) *
          (fact (outcome = TokenizersCpp.HFTokenizer.delivered result >>= f) *
            holds slot (resultOf result)) := by
    refine checkStatus_spec (fun a hresult => ?_) fun abort hresult => le_fact_mul ?_ (le_refl _)
    · rw [hresult]
      exact hconvert slot a
    · rw [hresult]
      rfl
  rw [← mul_assoc]
  refine hcheck.step fun outcome => ?_
  rw [mul_assoc]
  refine tokenizersFreeErrorMessage_spec.step fun _ => Triple.of_fact fun _ => ?_
  rw [mul_assoc]
  refine Triple.of_fact fun houtcome => (hrelease slot).step fun _ => ?_
  rw [one_mul]
  exact Triple.ret_of (le_fact_mul houtcome (le_refl R))

namespace HFTokenizer
variable {t : HFTokenizer}

/-- The tokenizer, as `HuggingFace` has it, over the load behind its handle. -/
def value (t : HFTokenizer) (load : Option (Load crates)) : TokenizersCpp.HFTokenizer crates :=
  ⟨asHandle load, t.supportsEncodeFlags⟩

section Encode
variable {load : Option (Load crates)}

/-- **`EncodeImpl`** returns or throws what the computation on the load says; the message
and the ids are given back. -/
theorem encodeImpl_spec (text : Bytes) (options : EncodeOptions) :
    Triple (HandleAt t.handle load) (t.encodeImpl text options) fun outcome =>
      fact (outcome = (t.value load).encodeOutcome text options) * HandleAt t.handle load := by
  refine (tokenizersEncode_spec _ _ _ _ _).bind fun done => ?_
  refine delivery_spec convertResult (fun slot => tokenizersFreeEncodeResults (some [slot]) 1) .null
    (fun slot ids => convertResult_spec) fun slot => freeSlot_spec _

/-- **`EncodeBatchImpl`** returns or throws what the computation on the load says. -/
theorem encodeBatchImpl_spec (haligned : crates.BatchAligned) (texts : List Bytes)
    (options : EncodeOptions) :
    Triple (HandleAt t.handle load) (t.encodeBatchImpl texts options) fun outcome =>
      fact (outcome = (t.value load).encodeBatchOutcome texts options) *
        HandleAt t.handle load := by
  cases htexts : texts.isEmpty with
  | true =>
    rw [encodeBatchImpl, if_pos htexts, TokenizersCpp.HFTokenizer.encodeBatchOutcome,
      if_pos htexts]
    exact Triple.ret_eq
  | false =>
    have hnum := TokenizersCpp.HFTokenizer.length_ne_zero_of_texts htexts
    rw [encodeBatchImpl, htexts, if_neg Bool.false_ne_true,
      TokenizersCpp.HFTokenizer.encodeBatchOutcome, htexts, if_neg Bool.false_ne_true]
    refine (tokenizersEncodeBatch_spec haligned _ _ hnum (List.length_map ..).symm
      (List.length_map ..).symm (List.length_replicate ..).symm).bind fun done => ?_
    refine delivery_spec convertResults
      (fun slots => tokenizersFreeEncodeResults (some slots) texts.length) []
      (fun slots batch => convertResults_spec) fun slots => ?_
    refine (Triple.of_fact fun hslots => ?_).pre fun fragment h =>
      fact_mul.mpr
        ⟨length_of_holdsBatch haligned (List.length_map ..) (List.length_map ..) h, h⟩
    exact (tokenizersFreeEncodeResults_spec _ hslots).post fun _ _ h => h.2

end Encode

section Lookup
variable {load : Load crates}

/-- **`Decode`** returns the decoded text: the view that it copies is one of the string that
its own call assigned. -/
theorem decode_spec (ids : List Int32) (skipSpecialTokens : Bool) :
    Triple (HandleAt t.handle (some load)) (t.decode ids skipSpecialTokens) fun text =>
      fact (text = strBytes
        (load.wrapper.decodedText (ids.map Int32.toUInt32) skipSpecialTokens)) *
          HandleAt t.handle (some load) := by
  refine of_handleAt fun a w d i hhandle hload => ?_
  subst hload
  rw [decode, hhandle]
  refine (tokenizersDecode_spec _ (List.length_map ..).symm _).bind fun _ => ?_
  refine Triple.of_ex fun decodeStr => ?_
  refine (tokenizersGetDecodeStr_spec none).bind_eq ?_
  rw [TokenizersCpp.HFTokenizer.intOfBool_ne_zero]
  exact readDecodeStr_spec.post fun _ => mul_le_mul_right handleAt_wrapper _

/-- **`IdToToken`** returns the token. -/
theorem idToToken_spec (id : Int32) :
    Triple (HandleAt t.handle (some load)) (t.idToToken id) fun text =>
      fact (text = strBytes (load.wrapper.tokenText id.toUInt32)) *
        HandleAt t.handle (some load) := by
  refine of_handleAt fun a w d i hhandle hload => ?_
  subst hload
  rw [idToToken, hhandle]
  refine (tokenizersIdToToken_spec _ none).bind fun view => Triple.of_ex fun token => ?_
  refine Triple.of_fact fun hview => ?_
  subst hview
  exact readIdToTokenResult_spec.post fun _ => mul_le_mul_right handleAt_wrapper _

/-- **`GetVocabSize`** returns the size. -/
theorem getVocabSize_spec :
    Triple (HandleAt t.handle (some load)) t.getVocabSize fun size =>
      fact (size = (t.value (some load)).getVocabSize) * HandleAt t.handle (some load) := by
  refine of_handleAt fun a w d i hhandle hload => ?_
  subst hload
  rw [getVocabSize, hhandle]
  refine (tokenizersGetVocabSize_spec none).bind_eq ?_
  exact Triple.ret_eq.post fun _ => mul_le_mul_right handleAt_wrapper _

/-- **`TokenToId`** returns the id. -/
theorem tokenToId_spec (token : Bytes) :
    Triple (HandleAt t.handle (some load)) (t.tokenToId token) fun id =>
      fact (id = (t.value (some load)).tokenToId token) * HandleAt t.handle (some load) := by
  refine of_handleAt fun a w d i hhandle hload => ?_
  subst hload
  rw [tokenToId, hhandle]
  refine (tokenizersTokenToId_spec _ _ none).bind_eq ?_
  exact Triple.ret_eq.post fun _ => mul_le_mul_right handleAt_wrapper _

/-- **The destructor** gives back the handle and all that is behind it. -/
theorem destroy_spec {load : Option (Load crates)} :
    Triple (HandleAt t.handle load) t.destroy fun _ => 1 := by
  cases load with
  | none =>
    refine Triple.of_fact_only fun hnull => ?_
    rw [destroy, if_pos hnull]
    exact Triple.ret_of (le_refl 1)
  | some load =>
    refine of_handleAt fun a w d i hhandle _ => ?_
    rw [destroy, hhandle, if_neg nofun]
    exact tokenizersFree_spec.pre handleAt_wrapper

end Lookup

section Factories
variable {newFails supportsEncodeFlags : Bool} {nullMessage : String}

/-- The load that a factory makes a tokenizer of, if it returns one. -/
def made (newFails : Bool) (result : Rust (TokenizerWrapper crates)) :
    Except CppException (Load crates) := do
  let w ← TokenizersCpp.HFTokenizer.delivered result
  if newFails then .error (.stdException "std::bad_alloc") else .ok (Load.of w)

/-- A factory has returned a tokenizer with the only handle for its load, or has thrown. -/
def HoldsMade (supportsEncodeFlags : Bool) :
    Except CppException HFTokenizer → Except CppException (Load crates) → Assn crates
  | .ok t, .ok load =>
      fact (t.supportsEncodeFlags = supportsEncodeFlags) * HandleAt t.handle (some load)
  | .error e, .error e' => fact (e = e')
  | _, _ => fact False

theorem fromHandle_spec {handle : Pointer} (w : TokenizerWrapper crates) :
    Triple (HandleAt handle (some (Load.of w)))
      (fromHandle newFails nullMessage handle supportsEncodeFlags) fun outcome =>
        HoldsMade supportsEncodeFlags outcome (made newFails (.ok w)) := by
  refine of_handleAt fun a w' d i hhandle hload => ?_
  rw [fromHandle, hhandle, if_neg nofun]
  cases newFails with
  | true =>
    refine (tokenizersFree_spec.pre handleAt_wrapper).bind fun _ => ?_
    exact Triple.ret_of (le_of_eq (fact_of rfl).symm)
  | false => exact Triple.ret_of (le_fact_mul rfl (hload ▸ handleAt_wrapper))

/-- **A factory** that fails leaves nothing in memory, and one that returns only its handle. -/
theorem fromReturn_spec {result : Rust (TokenizerWrapper crates)}
    {done : FfiReturn (Option Pointer)} :
    Triple (Returned HoldsNew result done)
      (fromReturn newFails nullMessage supportsEncodeFlags done) fun outcome =>
        HoldsMade supportsEncodeFlags outcome (made newFails result) := by
  rw [← mul_one (Returned HoldsNew result done)]
  refine of_returned fun handle error hdone => ?_
  subst hdone
  rw [mul_one]
  have hcheck : Triple (Holds .byte error (messageOf result) * HoldsNew handle (resultOf result))
      (checkStatus (statusOf result) error
        (fromHandle newFails nullMessage handle supportsEncodeFlags)) fun outcome =>
        Holds .byte error (messageOf result) *
          HoldsMade supportsEncodeFlags outcome (made newFails result) := by
    refine checkStatus_spec (fun w hresult => ?_) fun abort hresult => ?_
    · rw [hresult]
      exact fromHandle_spec w
    · rw [hresult]
      exact fun fragment h => ⟨rfl, h.2⟩
  refine hcheck.bind fun outcome => ?_
  exact tokenizersFreeErrorMessage_spec.step fun _ => Triple.of_fact fun _ =>
    Triple.ret_of (le_refl _)

/-- **`FromBlobJSON`.** -/
theorem fromBlobJSON_spec (json : Bytes) :
    Triple 1 (fromBlobJSON newFails json) fun outcome =>
      HoldsMade true outcome (made newFails do
        let json ← inputStr crates.utf8Error (some json) json.length "Tokenizer JSON"
        TokenizerWrapper.fromStr crates json) :=
  (tokenizersNewFromStr_spec (some json) json.length).bind fun _ => fromReturn_spec

/-- **`FromBlobByteLevelBPE`.** -/
theorem fromBlobByteLevelBPE_spec (vocab merges addedTokens : Bytes) :
    Triple 1 (fromBlobByteLevelBPE newFails vocab merges addedTokens) fun outcome =>
      HoldsMade false outcome (made newFails do
        let vocab ← inputStr crates.utf8Error (some vocab) vocab.length "BPE vocabulary"
        let merges ← inputStr crates.utf8Error (some merges) merges.length "BPE merges"
        let addedTokens ← inputStr crates.utf8Error (some addedTokens) addedTokens.length
          "BPE added-token map"
        TokenizerWrapper.byteLevelBpeFromStr crates vocab merges addedTokens) :=
  (byteLevelBpeTokenizersNewFromStr_spec (some vocab) vocab.length (some merges) merges.length
    (some addedTokens) addedTokens.length).bind fun _ => fromReturn_spec

end Factories

end HFTokenizer

end Raw

end TokenizersCpp
