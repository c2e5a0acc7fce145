import TokenizersCpp.Dispatch
import TokenizersCpp.SampleLibrary

/-!
# The two layers of flag validation

`ValidateEncodeOptions` checks a flag word in C++, with a capability bit stored
in the C++ object; `tokenizer_for_encode` checks it again in Rust, against an
`Option` set by the Rust constructors.  The capability bit tracks the `Option`
through both factories and through every later call (`Produced.aligned`), and
then the two checks accept the same words and blame the same category
(`validate_agrees`).
-/

namespace TokenizersCpp

open Traversal

/-! ## One flag word -/

section Word
variable {options : EncodeOptions} (supports : Bool)

theorem validateEncodeOptions_unknown (h : options.flags.bits &&& ~~~kKnownEncodeFlags ≠ 0) :
    ∃ message, validateEncodeOptions options supports =
      .error (.tokenizerError .kInvalidArgument message) :=
  ⟨_, if_pos h⟩

theorem validateEncodeOptions_unsupported
    (hknown : options.flags.bits &&& ~~~kKnownEncodeFlags = 0) (hflags : options.flags.bits ≠ 0) :
    ∃ message, validateEncodeOptions options false =
      .error (.tokenizerError .kUnsupportedOperation message) := by
  rw [validateEncodeOptions, if_neg (not_not.mpr hknown), if_pos ⟨hflags, Bool.false_ne_true⟩]
  exact ⟨_, rfl⟩

variable {supports}

/-- **The two checks agree on every flag word**, when the capability bit says
whether the wrapper has encode variants: both accept, or both reject and with the
same category. -/
theorem validate_agrees {crates : Crates} {w : TokenizerWrapper crates}
    (h : supports = w.encodeVariants.isSome) (options : EncodeOptions) :
    (validateEncodeOptions options supports = .ok () ∧
        ∃ tokenizer, w.tokenizerForEncode options.flags.bits = .ok tokenizer) ∨
      ∃ e abort, validateEncodeOptions options supports = .error e ∧
        w.tokenizerForEncode options.flags.bits = .error abort ∧ e.code = some abort.code := by
  by_cases hknown : options.flags.bits &&& ~~~kKnownEncodeFlags = 0
  · by_cases hflags : options.flags.bits = 0
    · refine Or.inl ⟨validateEncodeOptions_eq_ok.mpr ⟨hknown, Or.inl hflags⟩, ?_⟩
      rw [hflags]
      exact ⟨_, w.tokenizerForEncode_none⟩
    · cases hvariants : w.encodeVariants with
      | some variants =>
        rw [hvariants] at h
        exact Or.inl ⟨validateEncodeOptions_eq_ok.mpr ⟨hknown, Or.inr h⟩, _,
          w.tokenizerForEncode_variant hknown hflags hvariants⟩
      | none =>
        obtain rfl : supports = false := by rw [h, hvariants]; rfl
        obtain ⟨message, he⟩ := validateEncodeOptions_unsupported hknown hflags
        obtain ⟨message', ha⟩ := w.tokenizerForEncode_unsupported hknown hflags hvariants
        exact Or.inr ⟨_, _, he, ha, rfl⟩
  · obtain ⟨message, he⟩ := validateEncodeOptions_unknown supports hknown
    obtain ⟨message', ha⟩ := w.tokenizerForEncode_unknown hknown
    exact Or.inr ⟨_, _, he, ha, rfl⟩

end Word

/-! ## The capability bit -/

namespace HFTokenizer

variable {crates : Crates}

/-- An object that a factory returned, after any number of the calls that change
the wrapper behind its handle. -/
inductive Produced : HFTokenizer crates → Prop
  | json {json : Bytes} {t : HFTokenizer crates} (h : MadeFromJSON json t) : Produced t
  | byteLevelBPE {vocab merges addedTokens : Bytes} {t : HFTokenizer crates}
      (h : MadeFromBPE vocab merges addedTokens t) : Produced t
  | decode {t : HFTokenizer crates} (h : Produced t) (ids : List Int32) (skipSpecialTokens : Bool) :
      Produced (t.decode ids skipSpecialTokens).2
  | idToToken {t : HFTokenizer crates} (h : Produced t) (id : Int32) : Produced (t.idToToken id).2

/-- The object holds a wrapper, and its capability bit says whether the wrapper
has encode variants. -/
def Aligned (t : HFTokenizer crates) : Prop :=
  ∃ box, t.handle = some box ∧ t.supportsEncodeFlags = box.value.encodeVariants.isSome

theorem Aligned.decode {t : HFTokenizer crates} (h : t.Aligned) (ids : List Int32)
    (skipSpecialTokens : Bool) : (t.decode ids skipSpecialTokens).2.Aligned := by
  obtain ⟨box, hhandle, hsupports⟩ := h
  obtain ⟨handle, supports⟩ := t
  obtain rfl : handle = some box := hhandle
  cases ids with
  | nil => exact ⟨_, rfl, hsupports⟩
  | cons id ids => exact ⟨_, rfl, hsupports⟩

theorem Aligned.idToToken {t : HFTokenizer crates} (h : t.Aligned) (id : Int32) :
    (t.idToToken id).2.Aligned := by
  obtain ⟨box, hhandle, hsupports⟩ := h
  obtain ⟨handle, supports⟩ := t
  obtain rfl : handle = some box := hhandle
  exact ⟨_, rfl, hsupports⟩

theorem Produced.aligned {t : HFTokenizer crates} (h : Produced t) : t.Aligned := by
  induction h with
  | json h =>
    obtain ⟨text, box, -, hbox, rfl⟩ := h.wrapper
    obtain ⟨_, _, _, -, -, -, hw⟩ := (TokenizerWrapper.fromStr_eq_ok crates).mp hbox
    exact ⟨box, rfl, by rw [hw]; rfl⟩
  | byteLevelBPE h =>
    obtain ⟨_, _, _, box, hbox, rfl⟩ := h.wrapper
    exact ⟨box, rfl, by rw [(TokenizerWrapper.byteLevelBpeFromStr_ok crates hbox).1]; rfl⟩
  | decode _ ids skipSpecialTokens ih => exact ih.decode ids skipSpecialTokens
  | idToToken _ id ih => exact ih.idToToken id

end HFTokenizer

/-! ## Public calls -/

section Calls
variable {crates : Crates} {lib : SentencePieceLibrary} {cs : CharSign}

/-- A public call on a wrapper stops at validation, or enters the backend with a
flag word that `tokenizer_for_encode` accepts. -/
def Guarded {α : Type} (w : TokenizerWrapper crates) (supports : Bool) (options : EncodeOptions)
    (call entered : Cpp α) : Prop :=
  (∃ e, validateEncodeOptions options supports = .error e ∧ ∀ σ, call σ = (.error e, σ)) ∨
    (∃ tokenizer, w.tokenizerForEncode options.flags.bits = .ok tokenizer) ∧ call = entered

/-- A call that validates first is guarded. -/
theorem guarded_of_agrees {α : Type} {w : TokenizerWrapper crates} {supports : Bool}
    (h : supports = w.encodeVariants.isSome) (options : EncodeOptions) {call entered : Cpp α}
    (hcall : ∀ σ, call σ = match validateEncodeOptions options supports with
      | .error e => (.error e, σ)
      | .ok () => entered σ) : Guarded w supports options call entered := by
  rcases validate_agrees h options with ⟨hok, htokenizer⟩ | ⟨e, abort, he, -, -⟩
  · exact Or.inr ⟨htokenizer, funext fun σ => by rw [hcall, hok]⟩
  · exact Or.inl ⟨e, he, fun σ => by rw [hcall, he]⟩

/-- **On every backend** the public calls report unknown bits as an invalid
argument, and known bits that the backend does not support as unsupported. -/
theorem rejected_code (cs : CharSign) (t : Tokenizer crates lib) {options : EncodeOptions}
    (h : ¬ options.Accepted t.supportsEncodeFlags) :
    ∃ e, e.code = some (if options.flags.bits &&& ~~~kKnownEncodeFlags ≠ 0 then .kInvalidArgument
        else .kUnsupportedOperation) ∧
      (∀ text σ, t.encode cs text options σ = (.error e, σ)) ∧
      ∀ texts σ, t.encodeBatch cs texts options σ = (.error e, σ) := by
  by_cases hknown : options.flags.bits &&& ~~~kKnownEncodeFlags = 0
  · have hflags : options.flags.bits ≠ 0 := fun hzero => h ⟨hknown, Or.inl hzero⟩
    have hsupports : t.supportsEncodeFlags = false :=
      Bool.eq_false_iff.mpr fun hsupports => h ⟨hknown, Or.inr hsupports⟩
    obtain ⟨message, he⟩ := validateEncodeOptions_unsupported hknown hflags
    refine ⟨.tokenizerError .kUnsupportedOperation message,
      by rw [if_neg (not_not.mpr hknown)]; rfl, fun text σ => ?_, fun texts σ => ?_⟩
    · rw [Tokenizer.encode, hsupports, he]
    · rw [Tokenizer.encodeBatch, hsupports, he]
  · obtain ⟨message, he⟩ := validateEncodeOptions_unknown t.supportsEncodeFlags hknown
    refine ⟨.tokenizerError .kInvalidArgument message, by rw [if_pos hknown]; rfl,
      fun text σ => ?_, fun texts σ => ?_⟩
    · rw [Tokenizer.encode, he]
    · rw [Tokenizer.encodeBatch, he]

/-- With `num_seqs = 0` the entry point still selects a tokenizer for the flags. -/
theorem status_of_emptyBatch
    (hempty : ∀ tokenizer addSpecialTokens,
      crates.encodeBatch tokenizer [] addSpecialTokens = .ok [])
    (box : RustBox (TokenizerWrapper crates)) (inputTexts : Option (List (Option Bytes)))
    (inputLens : Option (List Nat)) (addSpecialTokens : Int32) (flags : UInt32)
    (outResults : Option (List TokenizerEncodeResult)) (outError : Option TokenizerErrorMessage)
    (σ : Ledger) :
    (tokenizersEncodeBatch (some box) inputTexts inputLens 0 addSpecialTokens flags outResults
        outError σ).status =
      match box.value.tokenizerForEncode flags with
      | .ok _ => .ok
      | .error abort => abort.status := by
  cases h : box.value.tokenizerForEncode flags with
  | ok tokenizer =>
    have hinputs : encodeInputs (some box) [] [] 0 addSpecialTokens flags = .ok [] :=
      encodeInputs_eq_ok.mpr ⟨box.value, rfl, [], rfl,
        TokenizerWrapper.encodeBatch_eq_ok.mpr ⟨tokenizer, h, hempty _ _⟩⟩
    rw [tokenizersEncodeBatch, ffiCall_ok (by rw [encodeBatchAction_zero, hinputs]; rfl)]
  | error abort =>
    have hinputs : encodeInputs (some box) [] [] 0 addSpecialTokens flags = .error abort := by
      show box.value.encodeBatch [] (addSpecialTokens != 0) flags = .error abort
      rw [TokenizerWrapper.encodeBatch, h]
      rfl
    rw [tokenizersEncodeBatch, ffiCall_abort (by rw [encodeBatchAction_zero, hinputs]; rfl)]

/-- **The two layers of flag validation agree.**  For every object that a Hugging
Face factory returned, the capability bit says whether the wrapper has encode
variants; for every flag word the two checks accept together and reject with the
same category; so a public call stops at the C++ check or enters Rust with flags
that Rust accepts; and the empty batch is rejected exactly when the Rust entry
point rejects it with `num_seqs = 0`, with the category of its status.  On every
backend unknown bits are an invalid argument and unsupported ones unsupported. -/
theorem flag_validation_agrees (lib : SentencePieceLibrary) (cs : CharSign)
    (hempty : ∀ tokenizer addSpecialTokens,
      crates.encodeBatch tokenizer [] addSpecialTokens = .ok [])
    {t : HFTokenizer crates} (h : t.Produced) :
    ∃ box, t.handle = some box ∧ t.supportsEncodeFlags = box.value.encodeVariants.isSome ∧
      (∀ options : EncodeOptions,
        (validateEncodeOptions options t.supportsEncodeFlags = .ok () ↔
          ∃ tokenizer, box.value.tokenizerForEncode options.flags.bits = .ok tokenizer) ∧
        (∀ e abort, validateEncodeOptions options t.supportsEncodeFlags = .error e →
          box.value.tokenizerForEncode options.flags.bits = .error abort →
            e.code = some abort.code) ∧
        (∀ text, Guarded box.value t.supportsEncodeFlags options
          (Tokenizer.encode cs (.huggingFace t : Tokenizer crates lib) text options)
          (t.encodeImpl text options)) ∧
        (∀ texts, Guarded box.value t.supportsEncodeFlags options
          (Tokenizer.encodeBatch cs (.huggingFace t : Tokenizer crates lib) texts options)
          (t.encodeBatchImpl texts options)) ∧
        ∀ inputTexts inputLens addSpecialTokens outResults outError σ σ',
          let result := (Tokenizer.encodeBatch cs (.huggingFace t : Tokenizer crates lib) []
            options σ).1
          let status := (tokenizersEncodeBatch t.handle inputTexts inputLens 0 addSpecialTokens
            options.flags.bits outResults outError σ').status
          (result = .ok [] ∧ status = .ok) ∨
            ∃ e abort, result = .error e ∧ status = Abort.status abort ∧
              e.code = some abort.code) ∧
      ∀ (t' : Tokenizer crates lib) (options : EncodeOptions),
        ¬ options.Accepted t'.supportsEncodeFlags →
        ∃ e, e.code = some (if options.flags.bits &&& ~~~kKnownEncodeFlags ≠ 0
            then .kInvalidArgument else .kUnsupportedOperation) ∧
          (∀ text σ, t'.encode cs text options σ = (.error e, σ)) ∧
          ∀ texts σ, t'.encodeBatch cs texts options σ = (.error e, σ) := by
  obtain ⟨box, hhandle, hsupports⟩ := h.aligned
  refine ⟨box, hhandle, hsupports, fun options => ⟨?_, ?_, ?_, ?_, ?_⟩,
    fun t' options => rejected_code cs t'⟩
  · rcases validate_agrees hsupports options with ⟨hok, htokenizer⟩ | ⟨e, abort, he, ha, -⟩
    · exact iff_of_true hok htokenizer
    · refine iff_of_false (fun hok => ?_) fun ⟨tokenizer, htokenizer⟩ => ?_
      · rw [he] at hok
        cases hok
      · rw [ha] at htokenizer
        cases htokenizer
  · intro e abort he ha
    rcases validate_agrees hsupports options with ⟨hok, -⟩ | ⟨e', abort', he', ha', hcode⟩
    · rw [he] at hok
      cases hok
    · obtain rfl := Except.error.inj (he.symm.trans he')
      obtain rfl := Except.error.inj (ha.symm.trans ha')
      exact hcode
  · exact fun text => guarded_of_agrees hsupports options fun σ => rfl
  · exact fun texts => guarded_of_agrees hsupports options fun σ => rfl
  · intro inputTexts inputLens addSpecialTokens outResults outError σ σ'
    simp only [hhandle, status_of_emptyBatch hempty]
    rcases validate_agrees hsupports options with ⟨hok, tokenizer, ht⟩ | ⟨e, abort, he, ha, hcode⟩
    · refine Or.inl ⟨?_, by rw [ht]⟩
      rw [Tokenizer.encodeBatch, Tokenizer.supportsEncodeFlags, hok]
      rfl
    · refine Or.inr ⟨e, abort, ?_, by rw [ha], hcode⟩
      rw [Tokenizer.encodeBatch, Tokenizer.supportsEncodeFlags, he]

/-- The tokenizer of the plain JSON text accepts both flags in both layers. -/
theorem flag_validation_plain :
    ∃ box, (SampleLibrary.loaded SampleLibrary.plainTokenizer).handle = some box ∧
      ∃ tokenizer, box.value.tokenizerForEncode 3 = .ok tokenizer := by
  have hproduced : (SampleLibrary.loaded SampleLibrary.plainTokenizer).Produced :=
    .json (SampleLibrary.loaded_made SampleLibrary.fromStr_plain)
  obtain ⟨box, hhandle, -, hoptions, -⟩ :=
    flag_validation_agrees SampleLibrary.sentencePiece .signed
      SampleLibrary.view_documented.padded.encodeBatch_nil hproduced
  exact ⟨box, hhandle, (hoptions ⟨false, ⟨3⟩⟩).1.mp (by decide)⟩

end Calls

end TokenizersCpp
