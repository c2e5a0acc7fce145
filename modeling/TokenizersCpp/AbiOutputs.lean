import TokenizersCpp.SampleLibrary

/-!
# Outputs of the C ABI

An entry point is all-or-nothing when `Ok` leaves its own result in every output
slot, and any other status leaves every slot null and a message in the error
slot.  The constructors and `tokenizers_encode` are; `tokenizers_encode_batch` is
unless an input array is null while a slot holds something, because it looks at
the arrays before it clears the slots (`abi_allOrNothing`).
-/

namespace TokenizersCpp

open Traversal

/-! ## Every abort has a message -/

/-- A computation that aborts does so with a non-empty message. -/
def Spoken {α : Type} (result : Rust α) : Prop :=
  ∀ abort, result = .error abort → abort.message ≠ ""

section Spoken
variable {α β : Type}

theorem spoken_ok (a : α) : Spoken (.ok a) := nofun

theorem spoken_error {abort : Abort} (h : abort.message ≠ "") :
    Spoken (.error abort : Rust α) := by
  rintro _ ⟨⟩
  exact h

theorem Spoken.bind {result : Rust α} {f : α → Rust β} (h : Spoken result)
    (hf : ∀ a, Spoken (f a)) : Spoken (result >>= f) := by
  cases result with
  | error abort => exact spoken_error (h abort rfl)
  | ok a => exact hf a

theorem append_ne_left {s t : String} (h : s ≠ "") : s ++ t ≠ "" :=
  fun he => h (String.append_eq_empty_iff.mp he).1

theorem append_ne_right {s t : String} (h : t ≠ "") : s ++ t ≠ "" :=
  fun he => h (String.append_eq_empty_iff.mp he).2

theorem panicMessage_ne_empty (payload : PanicPayload) : panicMessage payload ≠ "" := by
  cases payload with
  | str message => exact append_ne_left (by decide)
  | string message => exact append_ne_left (by decide)
  | other => decide

theorem spoken_unwinding (call : Except PanicPayload α) : Spoken (unwinding call) := by
  cases call with
  | error payload => exact spoken_error (panicMessage_ne_empty payload)
  | ok a => exact spoken_ok a

theorem spoken_mapErr {f : String → FfiError} (hf : ∀ text, (f text).intoMessage ≠ "")
    (call : CrateCall α) : Spoken (call.mapErr f) := by
  rcases call with (text | payload) | a
  · exact spoken_error (hf text)
  · exact spoken_error (panicMessage_ne_empty payload)
  · exact spoken_ok a

theorem spoken_mapError {f : String → Abort} (hf : ∀ text, (f text).message ≠ "")
    (call : Except String α) : Spoken (call.mapError f) := by
  cases call with
  | error text => exact spoken_error (hf text)
  | ok a => exact spoken_ok a

theorem spoken_mapM {f : α → Rust β} (hf : ∀ a, Spoken (f a)) (l : List α) :
    Spoken (l.mapM f) := by
  intro abort h
  obtain ⟨a, -, ha⟩ := mapM_eq_error h
  exact hf a abort ha

theorem spoken_inputStr (utf8Error : Bytes → String) (data : Option Bytes) (len : Nat)
    (name : String) : Spoken (inputStr utf8Error data len name) := by
  unfold inputStr
  split
  · exact spoken_ok ""
  · cases data with
    | none => exact spoken_error (append_ne_right (by decide))
    | some bytes =>
      dsimp only
      split
      · exact spoken_ok _
      · exact spoken_error (append_ne_left (append_ne_right (by decide)))

end Spoken

section Wrapper
variable {crates : Crates}

theorem spoken_fromStr (json : String) : Spoken (TokenizerWrapper.fromStr crates json) :=
  (spoken_mapErr (fun _ => append_ne_left (by decide)) _).bind fun _ =>
    (spoken_unwinding _).bind fun _ => (spoken_unwinding _).bind fun _ => spoken_ok _

theorem spoken_insertTokenIds {kind : String} (entries : List (String × crates.Value))
    (vocab : Vocab) : Spoken (TokenizerWrapper.insertTokenIds crates kind entries vocab) := by
  induction entries generalizing vocab with
  | nil => exact spoken_ok vocab
  | cons entry entries ih =>
    unfold TokenizerWrapper.insertTokenIds
    dsimp only
    split
    · exact spoken_error (append_ne_right (by decide))
    · split
      · exact ih _
      · exact spoken_error (append_ne_right (by decide))

theorem spoken_parseVocab (vocab : String) : Spoken (TokenizerWrapper.parseVocab crates vocab) := by
  refine (spoken_mapError (fun _ => append_ne_left (by decide)) _).bind fun vocabJson => ?_
  split
  · exact spoken_insertTokenIds _ _
  · exact spoken_error (by decide)

theorem spoken_insertAddedTokens (addedTokens : String) (vocab : Vocab) :
    Spoken (TokenizerWrapper.insertAddedTokens crates addedTokens vocab) := by
  unfold TokenizerWrapper.insertAddedTokens
  split
  · exact spoken_ok vocab
  · refine (spoken_mapError (fun _ => append_ne_left (by decide)) _).bind fun addedTokensJson => ?_
    split
    · exact spoken_insertTokenIds _ _
    · exact spoken_error (by decide)

theorem spoken_parseMergeLine (debugStr : String → String) (line : String) :
    Spoken (TokenizerWrapper.parseMergeLine debugStr line) := by
  unfold TokenizerWrapper.parseMergeLine
  split
  · exact spoken_ok _
  · exact spoken_error (append_ne_left (by decide))

theorem spoken_byteLevelBpeFromStr (vocab merges addedTokens : String) :
    Spoken (TokenizerWrapper.byteLevelBpeFromStr crates vocab merges addedTokens) :=
  (spoken_parseVocab vocab).bind fun _ => (spoken_insertAddedTokens addedTokens _).bind fun _ =>
    (spoken_mapM (spoken_parseMergeLine _) _).bind fun _ => (spoken_unwinding _).bind fun _ =>
      spoken_ok _

theorem spoken_tokenizerForEncode (w : TokenizerWrapper crates) (flags : UInt32) :
    Spoken (w.tokenizerForEncode flags) := by
  unfold TokenizerWrapper.tokenizerForEncode
  split
  · exact spoken_error (append_ne_left (by decide))
  · split
    · exact spoken_ok _
    · split
      · exact spoken_error (by decide)
      · split
        · exact spoken_ok _
        · exact spoken_ok _

theorem spoken_wrapperFromHandle (handle : TokenizerHandle crates) :
    Spoken (wrapperFromHandle handle) := by
  cases handle with
  | none => exact spoken_error (by decide)
  | some box => exact spoken_ok _

theorem spoken_encodeInput (handle : TokenizerHandle crates) (inputText : Option Bytes)
    (len : Nat) (addSpecialTokens : Int32) (flags : UInt32) :
    Spoken (encodeInput handle inputText len addSpecialTokens flags) :=
  (spoken_wrapperFromHandle handle).bind fun w => (spoken_inputStr _ _ _ _).bind fun _ =>
    (spoken_tokenizerForEncode w flags).bind fun _ =>
      spoken_mapErr (fun _ => append_ne_left (by decide)) _

theorem spoken_encodeInputs (handle : TokenizerHandle crates) (texts : List (Option Bytes))
    (lens : List Nat) (numSeqs : Nat) (addSpecialTokens : Int32) (flags : UInt32) :
    Spoken (encodeInputs handle texts lens numSeqs addSpecialTokens flags) :=
  (spoken_wrapperFromHandle handle).bind fun w =>
    (spoken_mapM (fun _ => spoken_inputStr _ _ _ _) _).bind fun _ =>
      (spoken_tokenizerForEncode w flags).bind fun _ =>
        spoken_mapErr (fun _ => append_ne_left (by decide)) _

end Wrapper

/-! ## All or nothing -/

/-- **All or nothing**: with `Ok` the output slots hold the call's own result
(`own`) and the error slot is null; with any other status the output slots are
null (`cleared`) and a non-null error slot holds a non-empty message. -/
structure AllOrNothing {S : Type} (own cleared : S → Prop) (done : FfiReturn S) : Prop where
  ok_slots : done.status = .ok → own done.slots
  ok_error : done.status = .ok → ∀ error, done.error = some error → error = .null
  failed_slots : done.status ≠ .ok → cleared done.slots
  failed_error : done.status ≠ .ok → ∀ error, done.error = some error →
    ∃ data, error = ⟨some data, data.value.utf8ByteSize⟩ ∧ data.value ≠ ""

/-- `ffi_call` takes care of the error slot, so only the output slots are left to
the closure. -/
theorem allOrNothing_ffiCall_iff {S : Type} {own cleared : S → Prop}
    {outError : Option TokenizerErrorMessage} {action : Ledger → ActionEnd S} {σ : Ledger}
    (hspoken : Spoken (action σ).result) :
    AllOrNothing own cleared (ffiCall outError action σ) ↔
      ((action σ).result = .ok () → own (action σ).slots) ∧
        ∀ abort, (action σ).result = .error abort → cleared (action σ).slots := by
  cases hresult : (action σ).result with
  | ok u =>
    rw [ffiCall_ok hresult]
    constructor
    · exact fun h => ⟨fun _ => h.ok_slots rfl, nofun⟩
    · rintro ⟨hown, -⟩
      refine ⟨fun _ => hown rfl, fun _ error herror => ?_, fun h => absurd rfl h,
        fun h => absurd rfl h⟩
      obtain ⟨_, -, rfl⟩ := Option.map_eq_some_iff.mp herror
      rfl
  | error abort =>
    rw [ffiCall_abort hresult]
    constructor
    · exact fun h => ⟨nofun, fun _ _ => h.failed_slots abort.status_ne_ok⟩
    · rintro ⟨-, hcleared⟩
      refine ⟨fun h => absurd h abort.status_ne_ok, fun h => absurd h abort.status_ne_ok,
        fun _ => hcleared abort rfl, fun _ error herror => ?_⟩
      cases outError with
      | none => cases herror
      | some slot =>
        obtain rfl := Option.some.inj herror
        exact ⟨⟨_, abort.message⟩, rfl, hspoken abort hresult⟩

/-- A closure of the `writeSlot` shape is all-or-nothing. -/
theorem allOrNothing_writeSlot {S α : Type} {nullMessage : String} {null : S}
    {fill : RustBox α → S} {compute : Rust α} (hmessage : nullMessage ≠ "")
    (hspoken : Spoken compute) (outError : Option TokenizerErrorMessage) (out : Option S)
    (σ : Ledger) :
    AllOrNothing (fun slots => ∃ box, slots = some (fill box) ∧ compute = .ok box.value)
      (fun slots => ∀ slot, slots = some slot → slot = null)
      (ffiCall outError (writeSlot nullMessage null fill out compute) σ) := by
  cases out with
  | none =>
    have hnull : (Abort.error (.invalidArgument nullMessage)).message ≠ "" := hmessage
    exact (allOrNothing_ffiCall_iff (spoken_error hnull)).mpr ⟨nofun, fun _ _ => nofun⟩
  | some slot =>
    cases hcompute : compute with
    | error abort =>
      refine (allOrNothing_ffiCall_iff (spoken_error (hspoken abort hcompute))).mpr ⟨nofun, ?_⟩
      rintro _ - slot' ⟨⟩
      rfl
    | ok a =>
      refine (allOrNothing_ffiCall_iff (spoken_ok ())).mpr ⟨fun _ => ?_, nofun⟩
      exact ⟨(intoRaw a σ).1, rfl, rfl⟩

/-! ## The batch entry point -/

section Batch
variable {crates : Crates}

/-- A batch call with its array arguments: a non-null array has a cell for each of
the `num_seqs` texts. -/
structure BatchCall (crates : Crates) where
  handle : TokenizerHandle crates
  inputTexts : Option (List (Option Bytes))
  inputLens : Option (List Nat)
  numSeqs : Nat
  addSpecialTokens : Int32
  flags : UInt32
  outResults : Option (List TokenizerEncodeResult)
  outError : Option TokenizerErrorMessage
  texts_length : ∀ texts, inputTexts = some texts → numSeqs ≤ texts.length
  lens_length : ∀ lens, inputLens = some lens → numSeqs ≤ lens.length
  results_length : ∀ results, outResults = some results → numSeqs ≤ results.length

namespace BatchCall

variable (call : BatchCall crates)

/-- The call. -/
def run (σ : Ledger) : FfiReturn (Option (List TokenizerEncodeResult)) :=
  tokenizersEncodeBatch call.handle call.inputTexts call.inputLens call.numSeqs
    call.addSpecialTokens call.flags call.outResults call.outError σ

/-- The encodings of the call's own texts, in input order. -/
def compute : Rust (List (List UInt32)) :=
  encodeInputs call.handle (call.inputTexts.getD []) (call.inputLens.getD []) call.numSeqs
    call.addSpecialTokens call.flags

/-- The first `num_seqs` cells of the result array. -/
def slots (results : Option (List TokenizerEncodeResult)) : List TokenizerEncodeResult :=
  (results.getD []).take call.numSeqs

/-- All `num_seqs` slots hold the call's own results in input order. -/
def Own (results : Option (List TokenizerEncodeResult)) : Prop :=
  ∃ batch, call.compute = .ok batch ∧ batch.length = call.numSeqs ∧
    List.Forall₂ (fun slot ids => ∃ box, slot = ⟨some box, ids.length⟩ ∧ box.value = ids)
      (call.slots results) batch

/-- All `num_seqs` slots are null. -/
def Cleared (results : Option (List TokenizerEncodeResult)) : Prop :=
  ∀ slot ∈ call.slots results, slot = .null

/-- The call finds a null input array while it has texts. -/
def StopsEarly : Prop :=
  call.numSeqs ≠ 0 ∧ (call.inputTexts = none ∨ call.inputLens = none)

/-! ### Its three ways -/

variable {call} {σ : Ledger}

/-- With `num_seqs = 0` there is no slot to write. -/
theorem allOrNothing_of_zero (haligned : crates.BatchAligned) (hnum : call.numSeqs = 0) :
    AllOrNothing call.Own call.Cleared (call.run σ) := by
  have hcompute : encodeInputs call.handle [] [] 0 call.addSpecialTokens call.flags =
      call.compute := by
    simp only [compute, hnum, encodeInputs, List.take_zero]
  have haction := encodeBatchAction_zero call.handle call.inputTexts call.inputLens
    call.addSpecialTokens call.flags call.outResults σ
  rw [hcompute] at haction
  rw [run, tokenizersEncodeBatch, hnum]
  refine (allOrNothing_ffiCall_iff ?_).mpr ⟨fun hok => ?_, fun abort _ slot hslot => ?_⟩
  · rw [haction]
    intro abort habort
    cases hresult : call.compute with
    | ok batch =>
      rw [hresult] at habort
      cases habort
    | error abort' =>
      rw [hresult] at habort
      obtain rfl := Except.error.inj habort
      exact spoken_encodeInputs _ _ _ _ _ _ _ hresult
  · rw [haction] at hok ⊢
    cases hresult : call.compute with
    | error abort =>
      rw [hresult] at hok
      cases hok
    | ok batch =>
      have hlength : batch.length = call.numSeqs := by
        rw [length_of_encodeInputs haligned hresult, hnum, List.take_zero]
        rfl
      obtain rfl := List.length_eq_zero_iff.mp (hlength.trans hnum)
      refine ⟨[], hresult, hnum.symm, ?_⟩
      rw [slots, hnum, List.take_zero]
      exact .nil
  · rw [slots, hnum, List.take_zero] at hslot
    cases hslot

/-- With a null array the slots stay as they were. -/
theorem allOrNothing_iff_of_null (hnum : call.numSeqs ≠ 0)
    (hnull : call.inputTexts = none ∨ call.inputLens = none ∨ call.outResults = none) :
    AllOrNothing call.Own call.Cleared (call.run σ) ↔ call.Cleared call.outResults := by
  have haction : encodeBatchAction call.handle call.inputTexts call.inputLens call.numSeqs
      call.addSpecialTokens call.flags call.outResults σ =
        ⟨.error (.error (.invalidArgument "Batch input or output array is null")),
          call.outResults, σ⟩ := encodeBatchAction_null hnum hnull
  rw [run, tokenizersEncodeBatch, allOrNothing_ffiCall_iff, haction]
  · constructor
    · exact fun h => h.2 _ rfl
    · intro h
      refine ⟨fun hok => ?_, fun _ _ => h⟩
      cases hok
  · rw [haction]
    exact spoken_error (by decide)

/-- With all three arrays the slots are cleared before anything can fail. -/
theorem allOrNothing_of_arrays (haligned : crates.BatchAligned) (hnum : call.numSeqs ≠ 0)
    {texts : List (Option Bytes)} {lens : List Nat} {results : List TokenizerEncodeResult}
    (htexts : call.inputTexts = some texts) (hlens : call.inputLens = some lens)
    (hresults : call.outResults = some results) :
    AllOrNothing call.Own call.Cleared (call.run σ) := by
  have hcompute : call.compute = encodeInputs call.handle texts lens call.numSeqs
      call.addSpecialTokens call.flags := by
    rw [compute, htexts, hlens]
    rfl
  rw [run, tokenizersEncodeBatch, htexts, hlens, hresults]
  cases hresult : call.compute with
  | ok batch =>
    have hencode := hcompute.symm.trans hresult
    have haction : encodeBatchAction call.handle (some texts) (some lens) call.numSeqs
        call.addSpecialTokens call.flags (some results) σ =
          ⟨.ok (), some (overwrite (handOver batch σ).1
            (overwrite (List.replicate call.numSeqs .null) results)), (handOver batch σ).2⟩ :=
      encodeBatchAction_ok hnum hencode
    -- the arrays have a cell for each text, so every slot gets an encoding
    have hlength : batch.length = call.numSeqs := by
      have hle := call.texts_length texts htexts
      have hle' := call.lens_length lens hlens
      rw [length_of_encodeInputs haligned hencode, List.length_take, List.length_zip]
      omega
    refine (allOrNothing_ffiCall_iff ?_).mpr ⟨fun _ => ?_, fun abort habort => ?_⟩
    · rw [haction]
      exact spoken_ok ()
    · rw [haction]
      refine ⟨batch, hresult, hlength, ?_⟩
      rw [slots, Option.getD_some, take_overwrite _ ((length_handOver batch σ).trans hlength)]
      exact forall₂_handOver batch σ
    · rw [haction] at habort
      cases habort
  | error abort =>
    have haction : encodeBatchAction call.handle (some texts) (some lens) call.numSeqs
        call.addSpecialTokens call.flags (some results) σ =
          ⟨.error abort, some (overwrite (List.replicate call.numSeqs .null) results), σ⟩ :=
      encodeBatchAction_abort hnum (hcompute.symm.trans hresult)
    refine (allOrNothing_ffiCall_iff ?_).mpr ⟨fun hok => ?_, fun abort' _ slot hslot => ?_⟩
    · rw [haction]
      exact spoken_error (spoken_encodeInputs _ _ _ _ _ _ _ hresult)
    · rw [haction] at hok
      cases hok
    · rw [haction, slots, Option.getD_some, take_overwrite _ List.length_replicate] at hslot
      exact List.eq_of_mem_replicate hslot

/-- **The batch entry point is all-or-nothing, exactly when** it does not stop
early in front of slots that are not null. -/
theorem allOrNothing_iff (haligned : crates.BatchAligned) (call : BatchCall crates) (σ : Ledger) :
    AllOrNothing call.Own call.Cleared (call.run σ) ↔
      ¬ (call.StopsEarly ∧ ¬ call.Cleared call.outResults) := by
  by_cases hnum : call.numSeqs = 0
  · exact iff_of_true (allOrNothing_of_zero haligned hnum) fun h => h.1.1 hnum
  · by_cases hinputs : call.inputTexts = none ∨ call.inputLens = none
    · rw [allOrNothing_iff_of_null hnum (hinputs.imp_right Or.inl), not_and, not_not]
      exact ⟨fun h _ => h, fun h => h ⟨hnum, hinputs⟩⟩
    · have hnot : ¬ call.StopsEarly := fun h => hinputs h.2
      refine iff_of_true ?_ fun h => hnot h.1
      rw [not_or, ← ne_eq, ← ne_eq, Option.ne_none_iff_exists', Option.ne_none_iff_exists']
        at hinputs
      obtain ⟨⟨texts, htexts⟩, lens, hlens⟩ := hinputs
      cases hresults : call.outResults with
      | some results => exact allOrNothing_of_arrays haligned hnum htexts hlens hresults
      | none =>
        -- the call fails, but there is no slot that could hold anything
        refine (allOrNothing_iff_of_null hnum (Or.inr (Or.inr hresults))).mpr ?_
        rw [hresults]
        exact fun slot hslot => by simp [slots] at hslot

end BatchCall

/-! ## The four entry points -/

/-- The handle slot holds the wrapper of the call's own load. -/
def OwnHandle (load : Rust (TokenizerWrapper crates)) (slots : Option (TokenizerHandle crates)) :
    Prop :=
  ∃ box, slots = some (some box) ∧ load = .ok box.value

/-- A handle slot, unless it is no slot at all, is null. -/
def HandleCleared (slots : Option (TokenizerHandle crates)) : Prop :=
  ∀ slot, slots = some slot → slot = none

/-- The result slot holds the ids of the call's own encode. -/
def OwnResult (encoded : Rust (List UInt32)) (slots : Option TokenizerEncodeResult) : Prop :=
  ∃ box : RustBox (List UInt32), slots = some ⟨some box, box.value.length⟩ ∧
    encoded = .ok box.value

/-- A result slot, unless it is no slot at all, is null. -/
def ResultCleared (slots : Option TokenizerEncodeResult) : Prop :=
  ∀ slot, slots = some slot → slot = .null

/-- **Outputs of the C ABI.**  The two constructors and `tokenizers_encode` are
all-or-nothing on all arguments.  `tokenizers_encode_batch` is, exactly when it
does not stop at a null input array in front of slots that are not null. -/
theorem abi_allOrNothing (haligned : crates.BatchAligned) :
    (∀ inputJson len (outHandle : Option (TokenizerHandle crates)) outError σ,
      AllOrNothing
        (OwnHandle do
          let json ← inputStr crates.utf8Error inputJson len "Tokenizer JSON"
          TokenizerWrapper.fromStr crates json)
        HandleCleared (tokenizersNewFromStr inputJson len outHandle outError σ)) ∧
    (∀ inputVocab vocabLen inputMerges mergesLen inputAddedTokens addedTokensLen
        (outHandle : Option (TokenizerHandle crates)) outError σ,
      AllOrNothing
        (OwnHandle do
          let vocab ← inputStr crates.utf8Error inputVocab vocabLen "BPE vocabulary"
          let merges ← inputStr crates.utf8Error inputMerges mergesLen "BPE merges"
          let addedTokens ←
            inputStr crates.utf8Error inputAddedTokens addedTokensLen "BPE added-token map"
          TokenizerWrapper.byteLevelBpeFromStr crates vocab merges addedTokens)
        HandleCleared (byteLevelBpeTokenizersNewFromStr inputVocab vocabLen inputMerges mergesLen
          inputAddedTokens addedTokensLen outHandle outError σ)) ∧
    (∀ (handle : TokenizerHandle crates) inputText len addSpecialTokens flags outResult outError σ,
      AllOrNothing (OwnResult (encodeInput handle inputText len addSpecialTokens flags))
        ResultCleared
        (tokenizersEncode handle inputText len addSpecialTokens flags outResult outError σ)) ∧
    (∀ (call : BatchCall crates) σ, AllOrNothing call.Own call.Cleared (call.run σ) ↔
      ¬ (call.StopsEarly ∧ ¬ call.Cleared call.outResults)) := by
  refine ⟨?_, ?_, ?_, fun call σ => BatchCall.allOrNothing_iff haligned call σ⟩
  · intro inputJson len outHandle outError σ
    refine allOrNothing_writeSlot (by decide) ?_ outError outHandle σ
    exact (spoken_inputStr _ _ _ _).bind fun json => spoken_fromStr json
  · intro inputVocab vocabLen inputMerges mergesLen inputAddedTokens addedTokensLen outHandle
      outError σ
    refine allOrNothing_writeSlot (by decide) ?_ outError outHandle σ
    refine (spoken_inputStr _ _ _ _).bind fun vocab => ?_
    refine (spoken_inputStr _ _ _ _).bind fun merges => ?_
    refine (spoken_inputStr _ _ _ _).bind fun addedTokens => ?_
    exact spoken_byteLevelBpeFromStr vocab merges addedTokens
  · intro handle inputText len addSpecialTokens flags outResult outError σ
    have hspoken := spoken_encodeInput handle inputText len addSpecialTokens flags
    exact allOrNothing_writeSlot (by decide) hspoken outError outResult σ

/-- A batch of two texts into slots that hold earlier results. -/
def twoTextsCall : BatchCall SampleLibrary.crates where
  handle := (SampleLibrary.loaded SampleLibrary.plainTokenizer).handle
  inputTexts := some [some (strBytes "a"), some (strBytes "ab")]
  inputLens := some [1, 2]
  numSeqs := 2
  addSpecialTokens := 0
  flags := 0
  outResults := some [⟨some ⟨7, [9]⟩, 1⟩, ⟨some ⟨8, [9]⟩, 1⟩]
  outError := some .null
  texts_length := by rintro _ ⟨⟩; exact Nat.le_refl 2
  lens_length := by rintro _ ⟨⟩; exact Nat.le_refl 2
  results_length := by rintro _ ⟨⟩; exact Nat.le_refl 2

theorem abi_allOrNothing_twoTexts : AllOrNothing twoTextsCall.Own twoTextsCall.Cleared
    (twoTextsCall.run ⟨9, {7, 8}, []⟩) :=
  ((abi_allOrNothing SampleLibrary.view_documented.padded.batchAligned).2.2.2 twoTextsCall _).mpr
    fun h => h.1.2.elim nofun nofun

/-- The same call without its array of texts. -/
def nullTextsCall : BatchCall SampleLibrary.crates :=
  { twoTextsCall with
    inputTexts := none
    texts_length := nofun }

/-- It fails, and its slots still hold the earlier results. -/
theorem abi_batch_keeps_stale : ¬ AllOrNothing nullTextsCall.Own nullTextsCall.Cleared
    (nullTextsCall.run ⟨9, {7, 8}, []⟩) := by
  intro h
  have hstatus : (nullTextsCall.run ⟨9, {7, 8}, []⟩).status = .invalidArgument := rfl
  have hcleared := h.failed_slots (by rw [hstatus]; decide)
  have hstale : (⟨some ⟨7, [9]⟩, 1⟩ : TokenizerEncodeResult) = .null :=
    hcleared _ (List.mem_cons_self ..)
  cases hstale

end Batch

end TokenizersCpp
