import TokenizersCpp.FlagValidation

/-!
# Ignoring added tokens

Under a flag word with `kIgnoreAddedTokens` a JSON tokenizer encodes through a
view whose added vocabulary was replaced by an empty one.  An encoding is a
function of the components, the added vocabulary and the padding, and a load
takes nothing but the added vocabulary from `added_tokens`; so the flag has the
effect of loading the same JSON with that list emptied
(`ignoreAddedTokens_erases`).
-/

namespace TokenizersCpp

open Tokenizer Traversal

/-- Both flags, alone or together, pass the validation of a JSON tokenizer. -/
theorem accepted_json : ∀ flags ∈ [EncodeFlags.kNone, .kIgnoreSpecialTokens, .kIgnoreAddedTokens,
    .kIgnoreSpecialTokens ||| .kIgnoreAddedTokens], ∀ addSpecialTokens,
      EncodeOptions.Accepted ⟨addSpecialTokens, flags⟩ true := by decide

/-! ## What a call encodes with -/

section EncodesWith
variable {crates : Crates} (view : PipelineView crates)

/-- A tokenizer of the library with the components and the padding of `rest`, and
with the added tokens `vocabulary`. -/
structure HasParts (tokenizer : crates.Tokenizer) (rest : view.Rest) (vocabulary : AddedTokens) :
    Prop where
  components_eq : view.components tokenizer = view.componentsOf rest
  padding_eq : view.padding tokenizer = view.paddingOf rest
  vocabulary_eq : view.vocabulary tokenizer = vocabulary

/-- With this flag word the object passes validation and encodes with a tokenizer
that has these parts. -/
structure EncodesWith (t : HFTokenizer crates) (flags : EncodeFlags) (rest : view.Rest)
    (vocabulary : AddedTokens) : Prop where
  accepted : ∀ addSpecialTokens,
    EncodeOptions.Accepted ⟨addSpecialTokens, flags⟩ t.supportsEncodeFlags
  selects : ∃ box tokenizer, t.handle = some box ∧
    box.value.tokenizerForEncode flags.bits = .ok tokenizer ∧
      HasParts view tokenizer rest vocabulary

/-- The members of a blob, as UTF-8 text. -/
def BlobSections (json : Bytes) (rest : view.Rest) (added : List AddedToken) : Prop :=
  ∃ text, fromUtf8 json = some text ∧ view.sections text = some (rest, added)

variable {view} (doc : view.Documented) {t t' : HFTokenizer crates} {json : Bytes}
  {rest : view.Rest} {added : List AddedToken}
include doc

/-- **What a load leaves behind**: the tokenizer of the blob, and its two views,
which differ from it in their added tokens only. -/
theorem exists_parts (h : HFTokenizer.MadeFromJSON json t)
    (hblob : BlobSections view json rest added) :
    ∃ addr base special empty,
      t = ⟨some ⟨addr, ⟨base, some ⟨special, empty⟩, .new, .new⟩⟩, true⟩ ∧
      HasParts view base rest (view.vocabularyOf rest added) ∧
      HasParts view special rest
        { view.vocabularyOf rest added with encodeSpecialTokens := true } ∧
      HasParts view empty rest .new := by
  obtain ⟨text, htext, hsections⟩ := hblob
  obtain ⟨text', ⟨addr, wrapper⟩, htext', hload, rfl⟩ := h.wrapper
  obtain rfl := Option.some.inj (htext.symm.trans htext')
  obtain ⟨base, special, empty, hbase, hspecial, hempty, rfl⟩ :=
    (TokenizerWrapper.fromStr_eq_ok crates).mp hload
  obtain ⟨rest', added', hsections', hcomponents, hpadding, hvocabulary⟩ :=
    doc.fromStr_spec _ _ hbase
  obtain ⟨rfl, rfl⟩ := Prod.mk.inj (Option.some.inj (hsections.symm.trans hsections'))
  obtain ⟨hcomponents₁, hvocabulary₁⟩ := doc.setEncodeSpecialTokens_spec _ _ _ hspecial
  obtain ⟨hcomponents₂, hvocabulary₂⟩ := doc.withAddedVocabulary_spec _ _ hempty
  have hpadding₁ := doc.padded.setEncodeSpecialTokens_padding _ _ _ hspecial
  have hpadding₂ := doc.padded.withAddedVocabulary_padding _ _ _ hempty
  exact ⟨addr, base, special, empty, rfl, ⟨hcomponents, hpadding, hvocabulary⟩,
    ⟨hcomponents₁.trans hcomponents, hpadding₁.trans hpadding, hvocabulary ▸ hvocabulary₁⟩,
    ⟨hcomponents₂.trans hcomponents, hpadding₂.trans hpadding, hvocabulary₂⟩⟩

/-- Without flags a JSON tokenizer encodes with the added tokens of its blob. -/
theorem encodesWith_none (h : HFTokenizer.MadeFromJSON json t)
    (hblob : BlobSections view json rest added) :
    EncodesWith view t .kNone rest (view.vocabularyOf rest added) := by
  obtain ⟨addr, base, special, empty, rfl, hparts, -, -⟩ := exists_parts doc h hblob
  exact ⟨accepted_json _ (by decide), _, base, rfl, rfl, hparts⟩

/-- With `kIgnoreSpecialTokens` it skips the matches of special ones. -/
theorem encodesWith_ignoreSpecial (h : HFTokenizer.MadeFromJSON json t)
    (hblob : BlobSections view json rest added) :
    EncodesWith view t .kIgnoreSpecialTokens rest
      { view.vocabularyOf rest added with encodeSpecialTokens := true } := by
  obtain ⟨addr, base, special, empty, rfl, -, hparts, -⟩ := exists_parts doc h hblob
  exact ⟨accepted_json _ (by decide), _, special, rfl, rfl, hparts⟩

/-- With `kIgnoreAddedTokens` it encodes with no added token. -/
theorem encodesWith_ignoreAdded (h : HFTokenizer.MadeFromJSON json t)
    (hblob : BlobSections view json rest added) {flags : EncodeFlags}
    (hflags : flags = .kIgnoreAddedTokens ∨ flags = .kIgnoreSpecialTokens ||| .kIgnoreAddedTokens) :
    EncodesWith view t flags rest .new := by
  obtain ⟨addr, base, special, empty, rfl, -, -, hparts⟩ := exists_parts doc h hblob
  rcases hflags with rfl | rfl
  · exact ⟨accepted_json _ (by decide), _, empty, rfl, rfl, hparts⟩
  · exact ⟨accepted_json _ (by decide), _, empty, rfl, rfl, hparts⟩

/-! ## Two objects with the same parts -/

variable {flags flags' : EncodeFlags} {vocabulary : AddedTokens}
  (hwith : EncodesWith view t flags rest vocabulary)
  (hwith' : EncodesWith view t' flags' rest vocabulary)
include hwith hwith'

/-- Single calls of two objects that encode with the same parts end alike. -/
theorem encodeOutcome_congr (text : Bytes) (addSpecialTokens : Bool) :
    t.encodeOutcome text ⟨addSpecialTokens, flags⟩ =
      t'.encodeOutcome text ⟨addSpecialTokens, flags'⟩ := by
  obtain ⟨box, tokenizer, hhandle, htokenizer, hparts⟩ := hwith.selects
  obtain ⟨box', tokenizer', hhandle', htokenizer', hparts'⟩ := hwith'.selects
  have hencode := doc.encode_congr (hparts.components_eq.trans hparts'.components_eq.symm)
    (hparts.vocabulary_eq.trans hparts'.vocabulary_eq.symm)
    (hparts.padding_eq.trans hparts'.padding_eq.symm)
  rw [HFTokenizer.encodeOutcome_eq hhandle, HFTokenizer.encodeOutcome_eq hhandle']
  simp only [TokenizerWrapper.encode, htokenizer, htokenizer', hencode, ok_bind]

/-- So do batch calls. -/
theorem encodeBatchOutcome_congr (texts : List Bytes) (addSpecialTokens : Bool) :
    t.encodeBatchOutcome texts ⟨addSpecialTokens, flags⟩ =
      t'.encodeBatchOutcome texts ⟨addSpecialTokens, flags'⟩ := by
  obtain ⟨box, tokenizer, hhandle, htokenizer, hparts⟩ := hwith.selects
  obtain ⟨box', tokenizer', hhandle', htokenizer', hparts'⟩ := hwith'.selects
  have hbatch := doc.encodeBatch_congr (hparts.components_eq.trans hparts'.components_eq.symm)
    (hparts.vocabulary_eq.trans hparts'.vocabulary_eq.symm)
    (hparts.padding_eq.trans hparts'.padding_eq.symm)
  by_cases hne : texts = []
  · subst hne
    rfl
  · rw [HFTokenizer.encodeBatchOutcome_eq hhandle hne,
      HFTokenizer.encodeBatchOutcome_eq hhandle' hne]
    simp only [TokenizerWrapper.encodeBatch, htokenizer, htokenizer', hbatch, ok_bind]

/-- Public calls of two objects that encode with the same parts return the same. -/
theorem calls_congr (lib : SentencePieceLibrary) (cs : CharSign) (addSpecialTokens : Bool) :
    (∀ text σ σ',
      ((.huggingFace t : Tokenizer crates lib).encode cs text ⟨addSpecialTokens, flags⟩ σ).1 =
        ((.huggingFace t' : Tokenizer crates lib).encode cs text
          ⟨addSpecialTokens, flags'⟩ σ').1) ∧
    ∀ texts σ σ',
      ((.huggingFace t : Tokenizer crates lib).encodeBatch cs texts
          ⟨addSpecialTokens, flags⟩ σ).1 =
        ((.huggingFace t' : Tokenizer crates lib).encodeBatch cs texts
          ⟨addSpecialTokens, flags'⟩ σ').1 := by
  have haccepted := validateEncodeOptions_eq_ok.mpr (hwith.accepted addSpecialTokens)
  have haccepted' := validateEncodeOptions_eq_ok.mpr (hwith'.accepted addSpecialTokens)
  refine ⟨fun text σ σ' => ?_, fun texts σ σ' => ?_⟩
  · rw [encode_fst, encode_fst, supportsEncodeFlags, supportsEncodeFlags, haccepted, haccepted']
    exact encodeOutcome_congr doc hwith hwith' text addSpecialTokens
  · rw [encodeBatch_fst cs doc.padded.batchAligned, encodeBatch_fst cs doc.padded.batchAligned,
      supportsEncodeFlags, supportsEncodeFlags, haccepted, haccepted']
    exact encodeBatchOutcome_congr doc hwith hwith' texts addSpecialTokens

omit hwith hwith' in
/-- **Ignoring added tokens is erasing them.**  Under each flag word with
`kIgnoreAddedTokens`, single and batch calls on the tokenizer of a JSON blob
return what they return without flags on the tokenizer of the same blob with
`added_tokens` emptied; and two blobs that differ only in `added_tokens` cannot be
told apart under such flags. -/
theorem ignoreAddedTokens_erases (lib : SentencePieceLibrary) (cs : CharSign)
    (h : HFTokenizer.MadeFromJSON json t) (hblob : BlobSections view json rest added)
    (hflags : flags = .kIgnoreAddedTokens ∨ flags = .kIgnoreSpecialTokens ||| .kIgnoreAddedTokens)
    (addSpecialTokens : Bool) :
    (∀ json' t', HFTokenizer.MadeFromJSON json' t' → BlobSections view json' rest [] →
      (∀ text σ σ',
        ((.huggingFace t : Tokenizer crates lib).encode cs text ⟨addSpecialTokens, flags⟩ σ).1 =
          ((.huggingFace t' : Tokenizer crates lib).encode cs text
            ⟨addSpecialTokens, .kNone⟩ σ').1) ∧
      ∀ texts σ σ',
        ((.huggingFace t : Tokenizer crates lib).encodeBatch cs texts
            ⟨addSpecialTokens, flags⟩ σ).1 =
          ((.huggingFace t' : Tokenizer crates lib).encodeBatch cs texts
            ⟨addSpecialTokens, .kNone⟩ σ').1) ∧
    ∀ json' t' added', HFTokenizer.MadeFromJSON json' t' → BlobSections view json' rest added' →
      (∀ text σ σ',
        ((.huggingFace t : Tokenizer crates lib).encode cs text ⟨addSpecialTokens, flags⟩ σ).1 =
          ((.huggingFace t' : Tokenizer crates lib).encode cs text
            ⟨addSpecialTokens, flags⟩ σ').1) ∧
      ∀ texts σ σ',
        ((.huggingFace t : Tokenizer crates lib).encodeBatch cs texts
            ⟨addSpecialTokens, flags⟩ σ).1 =
          ((.huggingFace t' : Tokenizer crates lib).encodeBatch cs texts
            ⟨addSpecialTokens, flags⟩ σ').1 := by
  have hwith := encodesWith_ignoreAdded doc h hblob hflags
  refine ⟨fun json' t' h' hblob' => ?_, fun json' t' added' h' hblob' => ?_⟩
  · have hwith' := encodesWith_none doc h' hblob'
    rw [doc.vocabularyOf_nil] at hwith'
    exact calls_congr doc hwith hwith' lib cs addSpecialTokens
  · exact calls_congr doc hwith (encodesWith_ignoreAdded doc h' hblob' hflags) lib cs
      addSpecialTokens

omit doc hwith hwith' in
/-- On `"abc"` the tokens `ab` and `bc` are ignored as if they were not listed. -/
theorem ignoreAddedTokens_erases_overlap :
    ((.huggingFace (SampleLibrary.loaded SampleLibrary.overlapTokenizer) :
        Tokenizer SampleLibrary.crates SampleLibrary.sentencePiece).encode .signed
          (strBytes "abc") ⟨false, .kIgnoreAddedTokens⟩ Ledger.initial).1 =
      ((.huggingFace (SampleLibrary.loaded SampleLibrary.plainTokenizer) :
        Tokenizer SampleLibrary.crates SampleLibrary.sentencePiece).encode .signed
          (strBytes "abc") ⟨false, .kNone⟩ Ledger.initial).1 := by
  have hblob : BlobSections SampleLibrary.view (strBytes SampleLibrary.overlapJson)
      (none : Option PaddingParams) SampleLibrary.overlapTokens :=
    ⟨SampleLibrary.overlapJson, fromUtf8_strBytes _,
      SampleLibrary.view_sections SampleLibrary.sections_overlap⟩
  have hblob' : BlobSections SampleLibrary.view (strBytes SampleLibrary.plainJson)
      (none : Option PaddingParams) [] :=
    ⟨SampleLibrary.plainJson, fromUtf8_strBytes _,
      SampleLibrary.view_sections SampleLibrary.sections_plain⟩
  have herases := ignoreAddedTokens_erases SampleLibrary.view_documented
    SampleLibrary.sentencePiece .signed (SampleLibrary.loaded_made SampleLibrary.fromStr_overlap)
    hblob (Or.inl rfl) false
  exact (herases.1 _ _ (SampleLibrary.loaded_made SampleLibrary.fromStr_plain) hblob').1 _ _ _

end EncodesWith

end TokenizersCpp
