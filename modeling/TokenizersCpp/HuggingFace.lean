import TokenizersCpp.CAbi

/-!
# The Hugging Face backend

`huggingface_tokenizer.cc`: the C++ owner of one Rust handle.  Every call goes
through the C entry points with slots on the C++ stack, turns the status into an
exception, converts the ids and releases what Rust handed over, on every exit.
A C++ computation (`Cpp`) returns or throws, and leaves the ledger of Rust
allocations.

What a call returns does not depend on the ledger: `encodeImpl_fst` and
`encodeBatchImpl_fst` read the C++ result off the Rust computation behind it, and
`MadeFromJSON.wrapper` and `MadeFromBPE.wrapper` find the loaded wrapper behind a
tokenizer that a factory returned.
-/

namespace TokenizersCpp

open Traversal

/-- A C++ computation that may throw and that moves the ledger. -/
abbrev Cpp (α : Type) := Ledger → Except CppException α × Ledger

/-! ## Errors -/

/-- `ErrorMessage::str()`. -/
def TokenizerErrorMessage.str (message : TokenizerErrorMessage) : String :=
  match message.data with
  | none => "Tokenizer backend failed without an error message"
  | some data =>
      if message.len = 0 then
        "Tokenizer backend failed without an error message"
      else
        data.value

/-- `ThrowStatus(status, error)`.  Rust returns no status outside the
enumeration, so the branch for an unknown one is never taken. -/
def throwStatus (status : TokenizerStatus) (error : TokenizerErrorMessage) : CppException :=
  match status with
  | .invalidArgument => .tokenizerError .kInvalidArgument error.str
  | .unsupported => .tokenizerError .kUnsupportedOperation error.str
  | .internal => .tokenizerError .kInternal error.str
  | .ok => .tokenizerError .kInternal "Tokenizer reported success through its error path"

/-- `CheckStatus(status, error)`. -/
def checkStatus (status : TokenizerStatus) (error : TokenizerErrorMessage) :
    Except CppException Unit :=
  if status ≠ .ok then .error (throwStatus status error) else .ok ()

/-- The category that `ThrowStatus` gives a Rust abort. -/
def Abort.code : Abort → TokenizerErrorCode
  | .error (.invalidArgument _) => .kInvalidArgument
  | .error (.unsupported _) => .kUnsupportedOperation
  | .error (.internal _) => .kInternal
  | .panic _ => .kInternal

/-- The exception that reports a Rust abort. -/
def Abort.exception (abort : Abort) : CppException :=
  .tokenizerError abort.code <|
    if abort.message.utf8ByteSize = 0 then
      "Tokenizer backend failed without an error message"
    else
      abort.message

/-- The status and the message that `ffi_call` reports become the exception of the abort. -/
theorem checkStatus_abort (abort : Abort) (σ : Ledger) :
    checkStatus abort.status ((writeErrorMessage (some .null) abort.message σ).1.getD .null) =
      .error abort.exception := by
  rw [checkStatus, if_pos abort.status_ne_ok]
  cases abort with
  | error e => cases e <;> rfl
  | panic payload => rfl

/-- One iteration of the loop of `ConvertResult`. -/
def convertId (tokenId : UInt32) : Except CppException Int32 :=
  if tokenId > 0x7fffffff then
    .error (.tokenizerError .kInternal "Tokenizer returned a token id that exceeds int32")
  else
    .ok tokenId.toInt32

theorem code_of_convertId {id : UInt32} {e : CppException} (h : convertId id = .error e) :
    e.code = some .kInternal := by
  rw [convertId] at h
  split at h
  · rw [← Except.error.inj h]
    rfl
  · cases h

/-- An id above `INT32_MAX` is reported as an internal error, wherever it stands. -/
theorem mapM_convertId_error {ids : List UInt32} (h : ∃ id ∈ ids, 0x7fffffff < id) :
    ∃ e, ids.mapM convertId = .error e ∧ e.code = some .kInternal := by
  obtain ⟨id, hid, hbig⟩ := h
  obtain ⟨e', he'⟩ : ∃ e', convertId id = .error e' := ⟨_, if_pos hbig⟩
  obtain ⟨id', -, e, he, heq⟩ := mapM_stops hid he'
  exact ⟨e, heq, code_of_convertId he⟩

/-- So is one in an entry of a batch. -/
theorem mapM_mapM_convertId_error {batch : List (List UInt32)}
    (h : ∃ ids ∈ batch, ∃ id ∈ ids, 0x7fffffff < id) :
    ∃ e, (batch.mapM fun ids => ids.mapM convertId) = .error e ∧ e.code = some .kInternal := by
  obtain ⟨ids, hids, hbig⟩ := h
  obtain ⟨e', he', -⟩ := mapM_convertId_error hbig
  obtain ⟨ids', -, e, he, heq⟩ := mapM_stops hids he'
  obtain ⟨id, -, hid⟩ := mapM_eq_error he
  exact ⟨e, heq, code_of_convertId hid⟩

/-- `ConvertResult(result)`. -/
def convertResult (result : TokenizerEncodeResult) : Except CppException (List Int32) :=
  match result.tokenIds with
  | none =>
      if result.len ≠ 0 then
        .error (.tokenizerError .kInternal
          "Tokenizer returned a null token buffer with non-zero length")
      else
        .ok []
  | some tokenIds => (tokenIds.value.take result.len).mapM convertId

/-! ## The tokenizer -/

/-- `HFTokenizer`. -/
structure HFTokenizer (crates : Crates) where
  handle : TokenizerHandle crates
  supportsEncodeFlags : Bool

namespace HFTokenizer

variable {crates : Crates}

/-- `static_cast<int>(bool)`. -/
def intOfBool (b : Bool) : Int32 := if b then 1 else 0

/-- `~HFTokenizer()`. -/
def destroy (t : HFTokenizer crates) (σ : Ledger) : Ledger := tokenizersFree t.handle σ

/-- `EncodeImpl(text, options)`. -/
def encodeImpl (t : HFTokenizer crates) (text : Bytes) (options : EncodeOptions) :
    Cpp (List Int32) := fun σ =>
  let results := TokenizerEncodeResult.null
  let error := TokenizerErrorMessage.null
  let done := tokenizersEncode t.handle (some text) text.length
    (intOfBool options.addSpecialTokens) options.flags.bits (some results) (some error) σ
  let results := done.slots.getD .null
  let error := done.error.getD .null
  let outcome := do
    checkStatus done.status error
    convertResult results
  -- the destructors of `error` and `results` run on every exit
  let (_, σ) := tokenizersFreeErrorMessage (some error) done.ledger
  let (_, σ) := tokenizersFreeEncodeResults (some [results]) 1 σ
  (outcome, σ)

/-- `EncodeBatchImpl(texts, options)`. -/
def encodeBatchImpl (t : HFTokenizer crates) (texts : List Bytes) (options : EncodeOptions) :
    Cpp (List (List Int32)) := fun σ =>
  if texts.isEmpty then
    (.ok [], σ)
  else
    let textData := texts.map some
    let textLengths := texts.map List.length
    let results := List.replicate texts.length TokenizerEncodeResult.null
    let error := TokenizerErrorMessage.null
    let done := tokenizersEncodeBatch t.handle (some textData) (some textLengths) texts.length
      (intOfBool options.addSpecialTokens) options.flags.bits (some results) (some error) σ
    let results := done.slots.getD []
    let error := done.error.getD .null
    let outcome := do
      checkStatus done.status error
      results.mapM convertResult
    -- the destructors give back every slot, also when a conversion threw
    let (_, σ) := tokenizersFreeErrorMessage (some error) done.ledger
    let (_, σ) := tokenizersFreeEncodeResults (some results) texts.length σ
    (outcome, σ)

/-- `Decode(ids, skip_special_tokens)`: the text, and the tokenizer with its new
scratch string. -/
def decode (t : HFTokenizer crates) (ids : List Int32) (skipSpecialTokens : Bool) :
    Option Bytes × HFTokenizer crates :=
  let handle := tokenizersDecode t.handle (some (ids.map Int32.toUInt32)) ids.length
    (intOfBool skipSpecialTokens)
  let (data, len) := tokenizersGetDecodeStr handle (some 0) (some 0)
  (handle.bind fun box => box.value.decodeStr.read (data.getD 0) (len.getD 0), { t with handle })

/-- `GetVocabSize()`; the assertion on the size is left to its callers. -/
def getVocabSize (t : HFTokenizer crates) : Nat :=
  (tokenizersGetVocabSize t.handle (some 0)).getD 0

/-- `IdToToken(id)`. -/
def idToToken (t : HFTokenizer crates) (id : Int32) : Option Bytes × HFTokenizer crates :=
  let (handle, data, len) := tokenizersIdToToken t.handle id.toUInt32 (some 0) (some 0)
  (handle.bind fun box => box.value.idToTokenResult.read (data.getD 0) (len.getD 0),
    { t with handle })

/-- `TokenToId(token)`. -/
def tokenToId (t : HFTokenizer crates) (token : Bytes) : Int32 :=
  (tokenizersTokenToId t.handle (some token) token.length (some 0)).getD 0

/-! ## What a call returns -/

/-- What `CheckStatus` makes of the end of a Rust computation. -/
def delivered {α : Type} : Rust α → Except CppException α
  | .ok a => .ok a
  | .error abort => .error abort.exception

theorem delivered_eq_ok {α : Type} {result : Rust α} {a : α} :
    delivered result = .ok a ↔ result = .ok a := by
  cases result with
  | error abort => exact ⟨nofun, nofun⟩
  | ok b => exact ⟨fun h => congrArg _ (Except.ok.inj h), fun h => congrArg _ (Except.ok.inj h)⟩

/-- The ids or the exception of a single call, read off the Rust computation. -/
def encodeOutcome (t : HFTokenizer crates) (text : Bytes) (options : EncodeOptions) :
    Except CppException (List Int32) := do
  let ids ← delivered <| encodeInput t.handle (some text) text.length
    (intOfBool options.addSpecialTokens) options.flags.bits
  ids.mapM convertId

/-- The lists of ids or the exception of a batch call. -/
def encodeBatchOutcome (t : HFTokenizer crates) (texts : List Bytes) (options : EncodeOptions) :
    Except CppException (List (List Int32)) :=
  if texts.isEmpty then
    .ok []
  else do
    let batch ← delivered <| encodeInputs t.handle (texts.map some) (texts.map List.length)
      texts.length (intOfBool options.addSpecialTokens) options.flags.bits
    batch.mapM fun ids => ids.mapM convertId

theorem convertResult_box (box : RustBox (List UInt32)) :
    convertResult ⟨some box, box.value.length⟩ = box.value.mapM convertId := by
  show (box.value.take box.value.length).mapM convertId = box.value.mapM convertId
  rw [List.take_length]

theorem convertResult_handOver (batch : List (List UInt32)) (σ : Ledger) :
    (handOver batch σ).1.mapM convertResult = batch.mapM fun ids => ids.mapM convertId := by
  induction batch generalizing σ with
  | nil => rfl
  | cons ids batch ih =>
    have hcons : (handOver (ids :: batch) σ).1 =
        ⟨some (intoRaw ids σ).1, (intoRaw ids σ).1.value.length⟩ ::
          (handOver batch (intoRaw ids σ).2).1 := rfl
    rw [hcons, List.mapM_cons, List.mapM_cons, convertResult_box, ih]
    rfl

/-- **A single call returns what the Rust computation behind it says**, whatever
the ledger is. -/
theorem encodeImpl_fst (t : HFTokenizer crates) (text : Bytes) (options : EncodeOptions)
    (σ : Ledger) : (t.encodeImpl text options σ).1 = t.encodeOutcome text options := by
  have hfst : (t.encodeImpl text options σ).1 =
      let done := tokenizersEncode t.handle (some text) text.length
        (intOfBool options.addSpecialTokens) options.flags.bits (some .null) (some .null) σ
      (checkStatus done.status (done.error.getD .null) >>= fun _ =>
        convertResult (done.slots.getD .null)) := rfl
  rw [hfst, encodeOutcome]
  cases h : encodeInput t.handle (some text) text.length (intOfBool options.addSpecialTokens)
      options.flags.bits with
  | ok ids =>
    rw [tokenizersEncode_ok h]
    exact convertResult_box (intoRaw ids σ).1
  | error abort =>
    rw [tokenizersEncode_abort h]
    simp only [Option.map_some, checkStatus_abort]
    rfl

/-- A batch with texts is checked and converted as a whole, and then everything is given
back. -/
theorem encodeBatchImpl_of_texts (t : HFTokenizer crates) {texts : List Bytes}
    (htexts : texts.isEmpty = false) (options : EncodeOptions) (σ : Ledger) :
    t.encodeBatchImpl texts options σ =
      let done := tokenizersEncodeBatch t.handle (some (texts.map some))
        (some (texts.map List.length)) texts.length (intOfBool options.addSpecialTokens)
        options.flags.bits (some (List.replicate texts.length .null)) (some .null) σ
      (checkStatus done.status (done.error.getD .null) >>= fun _ =>
          (done.slots.getD []).mapM convertResult,
        (tokenizersFreeEncodeResults (some (done.slots.getD [])) texts.length
          (tokenizersFreeErrorMessage (some (done.error.getD .null)) done.ledger).2).2) := by
  simp only [encodeBatchImpl, htexts, Bool.false_eq_true, if_false]

theorem length_ne_zero_of_texts {texts : List Bytes} (htexts : texts.isEmpty = false) :
    texts.length ≠ 0 :=
  fun hzero => List.isEmpty_eq_false_iff.mp htexts (List.length_eq_zero_iff.mp hzero)

/-- **A batch call returns what the Rust computation behind it says**, whatever
the ledger is. -/
theorem encodeBatchImpl_fst (haligned : crates.BatchAligned) (t : HFTokenizer crates)
    (texts : List Bytes) (options : EncodeOptions) (σ : Ledger) :
    (t.encodeBatchImpl texts options σ).1 = t.encodeBatchOutcome texts options := by
  cases htexts : texts.isEmpty with
  | true => simp only [encodeBatchImpl, encodeBatchOutcome, htexts, if_true]
  | false =>
    have hnum := length_ne_zero_of_texts htexts
    rw [t.encodeBatchImpl_of_texts htexts, encodeBatchOutcome, htexts]
    cases h : encodeInputs t.handle (texts.map some) (texts.map List.length) texts.length
        (intOfBool options.addSpecialTokens) options.flags.bits with
    | ok batch =>
      have hlen : batch.length = texts.length := by
        simpa using length_of_encodeInputs haligned h
      have hcells : (handOver batch σ).1.length =
          (overwrite (List.replicate texts.length TokenizerEncodeResult.null)
            (List.replicate texts.length .null)).length := by
        rw [overwrite_of_length rfl, length_handOver, hlen, List.length_replicate]
      rw [tokenizersEncodeBatch_ok hnum h, overwrite_of_length hcells]
      exact convertResult_handOver batch σ
    | error abort =>
      rw [tokenizersEncodeBatch_abort hnum h]
      simp only [Option.map_some, checkStatus_abort]
      rfl

theorem intOfBool_ne_zero (b : Bool) : (intOfBool b != 0) = b := by
  cases b <;> rfl

/-- The arrays that a batch call passes, text by text. -/
theorem zip_texts (texts : List Bytes) :
    ((texts.map some).zip (texts.map List.length)).take texts.length =
      texts.map fun text => (some text, text.length) := by
  rw [List.zip_map', List.take_of_length_le (by rw [List.length_map])]

section Live
variable {t : HFTokenizer crates} {box : RustBox (TokenizerWrapper crates)}
  (hhandle : t.handle = some box)
include hhandle

/-- A single call on a live handle: the text crosses, is encoded, and the ids are
converted. -/
theorem encodeOutcome_eq (text : Bytes) (options : EncodeOptions) :
    t.encodeOutcome text options =
      (delivered (inputStr crates.utf8Error (some text) text.length "Encode input" >>=
        fun text => box.value.encode text options.addSpecialTokens options.flags.bits) >>=
          fun ids => ids.mapM convertId) := by
  rw [encodeOutcome, hhandle, encodeInput, intOfBool_ne_zero]
  rfl

/-- A batch call on a live handle. -/
theorem encodeBatchOutcome_eq {texts : List Bytes} (hne : texts ≠ []) (options : EncodeOptions) :
    t.encodeBatchOutcome texts options =
      (delivered ((texts.mapM fun text =>
          inputStr crates.utf8Error (some text) text.length "Batch encode input") >>=
        fun texts => box.value.encodeBatch texts options.addSpecialTokens options.flags.bits) >>=
          fun batch => batch.mapM fun ids => ids.mapM convertId) := by
  rw [encodeBatchOutcome, if_neg (by simpa using hne), hhandle, encodeInputs, intOfBool_ne_zero,
    zip_texts, List.mapM_map]
  rfl

/-- On a UTF-8 text the call is the wrapper's. -/
theorem encodeOutcome_strBytes (text : String) (options : EncodeOptions) :
    t.encodeOutcome (strBytes text) options =
      (delivered (box.value.encode text options.addSpecialTokens options.flags.bits) >>=
        fun ids => ids.mapM convertId) := by
  rw [encodeOutcome_eq hhandle, inputStr_strBytes]
  rfl

theorem encodeBatchOutcome_strBytes {texts : List String} (hne : texts ≠ [])
    (options : EncodeOptions) :
    t.encodeBatchOutcome (texts.map strBytes) options =
      (delivered (box.value.encodeBatch texts options.addSpecialTokens options.flags.bits) >>=
        fun batch => batch.mapM fun ids => ids.mapM convertId) := by
  have hinputs : ((texts.map strBytes).mapM fun text =>
      inputStr crates.utf8Error (some text) text.length "Batch encode input") = .ok texts := by
    rw [mapM_eq_ok, List.forall₂_map_left_iff, List.forall₂_same]
    exact fun text _ => inputStr_strBytes _ _ _
  rw [encodeBatchOutcome_eq hhandle (by simpa using hne), hinputs]
  rfl

end Live

/-! ## Decoding and lookup -/

end HFTokenizer

namespace TokenizerWrapper
variable (w : TokenizerWrapper crates)

/-- The text that `decode` leaves in the scratch string. -/
def decodedText (ids : List UInt32) (skipSpecialTokens : Bool) : String :=
  match crates.decode w.tokenizer ids skipSpecialTokens with
  | .ok text => text
  | .error _ => ""

/-- The text that `tokenizers_id_to_token` leaves in the scratch string. -/
def tokenText (id : UInt32) : String := (crates.idToToken w.tokenizer id).getD ""

end TokenizerWrapper

/-- The whole list of ids is decoded. -/
theorem tokenizersDecode_box (box : RustBox (TokenizerWrapper crates)) (ids : List UInt32)
    (len : Nat) (hlen : len = ids.length) (skipSpecialTokens : Bool) :
    tokenizersDecode (some box) (some ids) len (HFTokenizer.intOfBool skipSpecialTokens) =
      some { box with value := box.value.decode ids skipSpecialTokens } := by
  rw [tokenizersDecode, HFTokenizer.intOfBool_ne_zero]
  by_cases hzero : len = 0
  · obtain rfl := List.length_eq_zero_iff.mp (hlen.symm.trans hzero)
    exact if_pos hzero
  · rw [if_neg hzero, hlen, List.take_length]

namespace HFTokenizer

section Live
variable {t : HFTokenizer crates} {box : RustBox (TokenizerWrapper crates)}
  (hhandle : t.handle = some box)
include hhandle

/-- `Decode` copies the text that Rust decoded. -/
theorem decode_fst (ids : List Int32) (skipSpecialTokens : Bool) :
    (t.decode ids skipSpecialTokens).1 =
      some (strBytes (box.value.decodedText (ids.map Int32.toUInt32) skipSpecialTokens)) := by
  have hids := tokenizersDecode_box box (ids.map Int32.toUInt32) ids.length
    (List.length_map ..).symm skipSpecialTokens
  simp only [decode, hhandle, hids]
  exact ScratchString.read_view _

/-- `IdToToken` copies the token that Rust found. -/
theorem idToToken_fst (id : Int32) :
    (t.idToToken id).1 = some (strBytes (box.value.tokenText id.toUInt32)) := by
  simp only [idToToken, hhandle]
  exact ScratchString.read_view _

/-- `GetVocabSize` returns the size that Rust counted. -/
theorem getVocabSize_eq : t.getVocabSize = crates.getVocabSize box.value.tokenizer true := by
  simp only [getVocabSize, hhandle]
  rfl

/-- `TokenToId` returns the id that Rust found, if it is an `int32`. -/
theorem tokenToId_eq (token : Bytes) :
    t.tokenToId token = ((fromUtf8 token).bind fun token =>
      (crates.tokenToId box.value.tokenizer token).bind i32TryFrom).getD (-1) := by
  cases htext : fromUtf8 token with
  | some text =>
    have hinput : inputStr crates.utf8Error (some token) token.length "Token" = .ok text :=
      inputStr_eq_ok.mpr htext
    simp only [tokenToId, tokenizersTokenToId, hhandle, hinput, Option.getD_some, Option.bind_some]
  | none =>
    cases hinput : inputStr crates.utf8Error (some token) token.length "Token" with
    | error abort =>
      simp only [tokenToId, tokenizersTokenToId, hhandle, hinput]
      rfl
    | ok text =>
      rw [inputStr_eq_ok, htext] at hinput
      cases hinput

theorem tokenToId_strBytes (token : String) :
    t.tokenToId (strBytes token) =
      ((crates.tokenToId box.value.tokenizer token).bind i32TryFrom).getD (-1) := by
  rw [tokenToId_eq hhandle, fromUtf8_strBytes, Option.bind_some]

end Live

/-! ## Factories -/

/-- The end of both factories: the handle is kept by a `HandleOwner` while the
C++ object is allocated, and `newFails` says that this allocation throws. -/
def fromHandle (newFails : Bool) (nullMessage : String) (handle : TokenizerHandle crates)
    (supportsEncodeFlags : Bool) : Cpp (HFTokenizer crates) := fun σ =>
  match handle with
  | none => (.error (.tokenizerError .kInternal nullMessage), σ)
  | some box =>
      if newFails then
        -- the exception unwinds through the `HandleOwner`
        (.error (.stdException "std::bad_alloc"), tokenizersFree (some box) σ)
      else
        (.ok ⟨some box, supportsEncodeFlags⟩, σ)

/-- What both factories do with the return of their entry point. -/
def fromReturn (newFails : Bool) (nullMessage : String) (supportsEncodeFlags : Bool)
    (done : FfiReturn (Option (TokenizerHandle crates))) :
    Except CppException (HFTokenizer crates) × Ledger :=
  let error := done.error.getD .null
  let (outcome, σ) := match checkStatus done.status error with
    | .error e => (.error e, done.ledger)
    | .ok () => fromHandle newFails nullMessage done.slots.join supportsEncodeFlags done.ledger
  let (_, σ) := tokenizersFreeErrorMessage (some error) σ
  (outcome, σ)

/-- `Tokenizer::FromBlobJSON(json)`. -/
def fromBlobJSON (newFails : Bool) (json : Bytes) : Cpp (HFTokenizer crates) := fun σ =>
  fromReturn newFails "Tokenizer factory succeeded with a null handle" true <|
    tokenizersNewFromStr (some json) json.length (some none) (some .null) σ

/-- `Tokenizer::FromBlobByteLevelBPE(vocab, merges, added_tokens)`. -/
def fromBlobByteLevelBPE (newFails : Bool) (vocab merges addedTokens : Bytes) :
    Cpp (HFTokenizer crates) := fun σ =>
  fromReturn newFails "BPE tokenizer factory succeeded with a null handle" false <|
    byteLevelBpeTokenizersNewFromStr (some vocab) vocab.length (some merges) merges.length
      (some addedTokens) addedTokens.length (some none) (some .null) σ

/-- A tokenizer that `FromBlobJSON` returned, in some run. -/
def MadeFromJSON (json : Bytes) (t : HFTokenizer crates) : Prop :=
  ∃ newFails σ σ', fromBlobJSON newFails json σ = (.ok t, σ')

/-- A tokenizer that `FromBlobByteLevelBPE` returned, in some run. -/
def MadeFromBPE (vocab merges addedTokens : Bytes) (t : HFTokenizer crates) : Prop :=
  ∃ newFails σ σ', fromBlobByteLevelBPE newFails vocab merges addedTokens σ = (.ok t, σ')

section FromReturn
variable {newFails : Bool} {nullMessage outMessage : String} {supportsEncodeFlags : Bool}
  {compute : Rust (TokenizerWrapper crates)} {σ σ' : Ledger}

/-- A load that fails or panics is reported, and its message is given back. -/
theorem fromReturn_abort {abort : Abort} (h : compute = .error abort) :
    fromReturn newFails nullMessage supportsEncodeFlags
        (ffiCall (some .null) (writeSlot outMessage none some (some none) compute) σ) =
      (.error abort.exception,
        dropRaw (intoRaw abort.message σ).1 (intoRaw abort.message σ).2) := by
  rw [ffiCall_abort (by rw [writeSlot_abort h]), writeSlot_abort h]
  simp only [fromReturn, Option.map_some, checkStatus_abort]
  rfl

/-- A load that returns makes a tokenizer, unless the allocation of the C++ object
fails; then the handle is given back. -/
theorem fromReturn_ok {wrapper : TokenizerWrapper crates} (h : compute = .ok wrapper) :
    fromReturn newFails nullMessage supportsEncodeFlags
        (ffiCall (some .null) (writeSlot outMessage none some (some none) compute) σ) =
      if newFails then
        (.error (.stdException "std::bad_alloc"),
          dropRaw (intoRaw wrapper σ).1 (intoRaw wrapper σ).2)
      else
        (.ok ⟨some (intoRaw wrapper σ).1, supportsEncodeFlags⟩, (intoRaw wrapper σ).2) := by
  rw [ffiCall_ok (by rw [writeSlot_ok h]), writeSlot_ok h]
  cases newFails <;> rfl

/-- A factory returns a tokenizer only around a wrapper that Rust built. -/
theorem wrapper_of_fromReturn {t : HFTokenizer crates}
    (h : fromReturn newFails nullMessage supportsEncodeFlags
      (ffiCall (some .null) (writeSlot outMessage none some (some none) compute) σ) = (.ok t, σ')) :
    ∃ box, compute = .ok box.value ∧ t = ⟨some box, supportsEncodeFlags⟩ := by
  cases hcompute : compute with
  | error abort =>
    rw [fromReturn_abort hcompute] at h
    cases congrArg Prod.fst h
  | ok wrapper =>
    rw [fromReturn_ok hcompute] at h
    cases newFails with
    | true => cases congrArg Prod.fst h
    | false => exact ⟨(intoRaw wrapper σ).1, rfl, (Except.ok.inj (congrArg Prod.fst h)).symm⟩

end FromReturn

/-- A JSON tokenizer holds the wrapper that `from_str` built, and supports the flags. -/
theorem MadeFromJSON.wrapper {json : Bytes} {t : HFTokenizer crates} (h : MadeFromJSON json t) :
    ∃ text box, fromUtf8 json = some text ∧
      TokenizerWrapper.fromStr crates text = .ok box.value ∧ t = ⟨some box, true⟩ := by
  obtain ⟨newFails, σ, σ', h⟩ := h
  obtain ⟨box, hcompute, rfl⟩ := wrapper_of_fromReturn h
  obtain ⟨text, htext, hbox⟩ := bind_eq_ok.mp hcompute
  exact ⟨text, box, inputStr_eq_ok.mp htext, hbox, rfl⟩

/-- A JSON text that `from_str` accepts makes a tokenizer. -/
theorem fromBlobJSON_of_fromStr {json : Bytes} {text : String} {wrapper : TokenizerWrapper crates}
    (htext : fromUtf8 json = some text) (h : TokenizerWrapper.fromStr crates text = .ok wrapper)
    (σ : Ledger) :
    fromBlobJSON false json σ =
      (.ok ⟨some (intoRaw wrapper σ).1, true⟩, (intoRaw wrapper σ).2) := by
  have hcompute : (do
      let json ← inputStr crates.utf8Error (some json) json.length "Tokenizer JSON"
      TokenizerWrapper.fromStr crates json) = .ok wrapper := by
    rw [inputStr_eq_ok.mpr htext]
    exact h
  exact fromReturn_ok hcompute

theorem madeFromJSON_of_fromStr {json : Bytes} {text : String} {wrapper : TokenizerWrapper crates}
    (htext : fromUtf8 json = some text) (h : TokenizerWrapper.fromStr crates text = .ok wrapper) :
    MadeFromJSON json ⟨some (intoRaw wrapper Ledger.initial).1, true⟩ :=
  ⟨false, Ledger.initial, _, fromBlobJSON_of_fromStr htext h Ledger.initial⟩

/-- A byte-level BPE tokenizer holds the wrapper that `byte_level_bpe_from_str` built. -/
theorem MadeFromBPE.wrapper {vocab merges addedTokens : Bytes} {t : HFTokenizer crates}
    (h : MadeFromBPE vocab merges addedTokens t) :
    ∃ vocabText mergesText addedText box,
      TokenizerWrapper.byteLevelBpeFromStr crates vocabText mergesText addedText = .ok box.value ∧
        t = ⟨some box, false⟩ := by
  obtain ⟨newFails, σ, σ', h⟩ := h
  obtain ⟨box, hcompute, rfl⟩ := wrapper_of_fromReturn h
  obtain ⟨vocabText, -, hcompute⟩ := bind_eq_ok.mp hcompute
  obtain ⟨mergesText, -, hcompute⟩ := bind_eq_ok.mp hcompute
  obtain ⟨addedText, -, hbox⟩ := bind_eq_ok.mp hcompute
  exact ⟨vocabText, mergesText, addedText, box, hbox, rfl⟩

end HFTokenizer

end TokenizersCpp
