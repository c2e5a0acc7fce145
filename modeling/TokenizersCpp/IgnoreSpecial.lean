import TokenizersCpp.IgnoreAdded

/-!
# Ignoring special tokens

Under `kIgnoreSpecialTokens` a JSON tokenizer encodes through a view that scans
for all added tokens and then skips the special ones.  The documentation
describes a pipeline that recognizes exactly the entries that are not special.
The two agree on a text exactly when no skipped match overlaps a match that the
entries that are not special have without it (`ignoreSpecialTokens_iff`).
-/

namespace TokenizersCpp

open LeftmostScan Tokenizer Traversal

/-- The vocabulary as the view has it: all entries are searched, and the matches of
special ones are skipped. -/
def AddedTokens.ignoringSpecial (vocabulary : AddedTokens) : AddedTokens :=
  { vocabulary with encodeSpecialTokens := true }

/-! ## One pass -/

namespace Pipeline

variable (pl : Pipeline) (components : pl.Components) (vocabulary : AddedTokens)

/-- In this pass over this piece, a special match overlaps a match that the other
entries have without it. -/
def SpecialOverlap (normalized : Bool) (piece : pl.Piece) : Prop :=
  DroppedOverlap (pl.pattern components) (vocabulary.inPass normalized)
    (fun entry => !entry.special) (pl.chars piece)

instance (normalized : Bool) (piece : pl.Piece) :
    Decidable (pl.SpecialOverlap components vocabulary normalized piece) :=
  inferInstanceAs (Decidable (DroppedOverlap _ _ _ _))

theorem recognized_ignoringSpecial (normalized : Bool) (piece : pl.Piece) :
    pl.recognized components vocabulary.ignoringSpecial normalized piece =
      (scan (pl.pattern components) (vocabulary.inPass normalized) (pl.chars piece)).filter
        fun m => !m.entry.special := by
  simp only [recognized, AddedTokens.ignoringSpecial, Bool.true_and]
  rfl

theorem recognized_withoutSpecial (normalized : Bool) (piece : pl.Piece) :
    pl.recognized components vocabulary.withoutSpecial normalized piece =
      scan (pl.pattern components)
        ((vocabulary.inPass normalized).filter fun entry => !entry.special) (pl.chars piece) := by
  have hflag : vocabulary.withoutSpecial.encodeSpecialTokens = false := rfl
  simp only [recognized, hflag, Bool.false_and, Bool.not_false, List.filter_true,
    AddedTokens.inPass_withoutSpecial]

/-- Without an overlap a pass recognizes the same tokens in both vocabularies. -/
theorem recognized_eq {normalized : Bool} {piece : pl.Piece}
    (h : ¬ pl.SpecialOverlap components vocabulary normalized piece) :
    pl.recognized components vocabulary.ignoringSpecial normalized piece =
      pl.recognized components vocabulary.withoutSpecial normalized piece := by
  rw [recognized_ignoringSpecial, recognized_withoutSpecial]
  exact filter_scan h

/-- A pass loses a token that is not special exactly when there is an overlap. -/
theorem recognized_iff {normalized : Bool} {piece : pl.Piece} :
    (∀ m ∈ pl.recognized components vocabulary.withoutSpecial normalized piece,
      m ∈ pl.recognized components vocabulary.ignoringSpecial normalized piece) ↔
        ¬ pl.SpecialOverlap components vocabulary normalized piece := by
  rw [SpecialOverlap, ← lost_iff_overlap, recognized_ignoringSpecial, recognized_withoutSpecial]
  refine forall₂_congr fun m hm => ?_
  have hkept := (List.mem_filter.mp (mem_of_mem_scanFrom hm).1).2
  rw [List.mem_filter, and_iff_left hkept]

/-! ## Both passes -/

/-- Every token that the two passes recognize when the special entries are absent
is still recognized when they are searched and skipped. -/
def StillRecognized (text : String) : Prop :=
  (∀ m ∈ pl.recognized components vocabulary.withoutSpecial false (pl.ofText text),
    m ∈ pl.recognized components vocabulary.ignoringSpecial false (pl.ofText text)) ∧
  ∀ piece, .text piece ∈ pl.extract components vocabulary.withoutSpecial text →
    .text piece ∈ pl.extract components vocabulary.ignoringSpecial text ∧
    ∀ m ∈ pl.recognized components vocabulary.withoutSpecial true (pl.normalize components piece),
      m ∈ pl.recognized components vocabulary.ignoringSpecial true (pl.normalize components piece)

/-- No special match overlaps a match of the other entries: not in the raw text,
and not in a normalized piece that the first pass over the other entries leaves. -/
def NoSpecialOverlap (text : String) : Prop :=
  ¬ pl.SpecialOverlap components vocabulary false (pl.ofText text) ∧
  ∀ piece, .text piece ∈ pl.extract components vocabulary.withoutSpecial text →
    ¬ pl.SpecialOverlap components vocabulary true (pl.normalize components piece)

theorem extract_eq {text : String}
    (h : ¬ pl.SpecialOverlap components vocabulary false (pl.ofText text)) :
    pl.extract components vocabulary.ignoringSpecial text =
      pl.extract components vocabulary.withoutSpecial text := by
  rw [extract, extract, pl.recognized_eq components vocabulary h]

theorem stillRecognized_iff {text : String} :
    pl.StillRecognized components vocabulary text ↔
      pl.NoSpecialOverlap components vocabulary text := by
  rw [StillRecognized, NoSpecialOverlap, recognized_iff]
  refine and_congr_right fun hraw => ?_
  rw [extract_eq pl components vocabulary hraw]
  refine forall₂_congr fun piece hpiece => ?_
  rw [recognized_iff, and_iff_right hpiece]

/-- **Without an overlap both vocabularies give the same ids.** -/
theorem run_eq {text : String} (h : pl.NoSpecialOverlap components vocabulary text)
    (addSpecialTokens : Bool) :
    pl.run components vocabulary.ignoringSpecial text addSpecialTokens =
      pl.run components vocabulary.withoutSpecial text addSpecialTokens := by
  obtain ⟨hraw, hpieces⟩ := h
  have hsegments : (pl.extract components vocabulary.withoutSpecial text).flatMap
      (pl.extractNormalized components vocabulary.ignoringSpecial) =
        (pl.extract components vocabulary.withoutSpecial text).flatMap
          (pl.extractNormalized components vocabulary.withoutSpecial) := by
    refine List.flatMap_congr fun segment hsegment => ?_
    cases segment with
    | token entry piece => rfl  -- a token of the first pass is not searched again
    | text piece =>
      rw [extractNormalized, extractNormalized,
        recognized_eq pl components vocabulary (hpieces piece hsegment)]
  rw [run, run, extract_eq pl components vocabulary hraw, hsegments]

end Pipeline

/-! ## Public calls -/

section Calls
variable {crates : Crates} (view : PipelineView crates) (rest : view.Rest)

/-- What `Encode` returns when the pipeline of the blob runs with these added tokens. -/
def pipelineOutcome (vocabulary : AddedTokens) (text : String) (addSpecialTokens : Bool) :
    Except CppException (List Int32) :=
  let encoding : CrateCall (List UInt32) :=
    (view.pl.run (view.componentsOf rest) vocabulary text addSpecialTokens).map
      (padEncoding (view.paddingOf rest))
  HFTokenizer.delivered (encoding.mapErr fun error =>
    .internal s!"Hugging Face tokenizer encode failed: {error}") >>= fun ids => ids.mapM convertId

variable {view rest}

/-- A call on a UTF-8 text runs the pipeline with the parts it encodes with. -/
theorem encodeOutcome_eq_pipelineOutcome (doc : view.Documented) {t : HFTokenizer crates}
    {flags : EncodeFlags} {vocabulary : AddedTokens}
    (hwith : EncodesWith view t flags rest vocabulary) (text : String) (addSpecialTokens : Bool) :
    t.encodeOutcome (strBytes text) ⟨addSpecialTokens, flags⟩ =
      pipelineOutcome view rest vocabulary text addSpecialTokens := by
  obtain ⟨box, tokenizer, hhandle, htokenizer, hparts⟩ := hwith.selects
  rw [HFTokenizer.encodeOutcome_strBytes hhandle, TokenizerWrapper.encode, htokenizer, ok_bind,
    doc.padded.encode_eq, pipelineOutcome]
  simp only [PipelineView.toPaddingView, hparts.components_eq, hparts.padding_eq,
    hparts.vocabulary_eq]

/-- `Encode` with `kIgnoreSpecialTokens` ignores the special entries, and only
them: it returns what the pipeline returns with exactly the other entries, and
every token that this pipeline recognizes is still recognized. -/
def IgnoresOnlySpecial (lib : SentencePieceLibrary) (cs : CharSign) (view : PipelineView crates)
    (t : HFTokenizer crates) (rest : view.Rest) (vocabulary : AddedTokens) (text : String)
    (addSpecialTokens : Bool) : Prop :=
  (∀ σ, ((.huggingFace t : Tokenizer crates lib).encode cs (strBytes text)
      ⟨addSpecialTokens, .kIgnoreSpecialTokens⟩ σ).1 =
        pipelineOutcome view rest vocabulary.withoutSpecial text addSpecialTokens) ∧
    view.pl.StillRecognized (view.componentsOf rest) vocabulary text

/-- **Ignoring special tokens ignores only them, exactly when no special match
overlaps** a match that the other added tokens have without it. -/
theorem ignoreSpecialTokens_iff (doc : view.Documented) (lib : SentencePieceLibrary)
    (cs : CharSign) {json : Bytes} {t : HFTokenizer crates} (h : HFTokenizer.MadeFromJSON json t)
    {added : List AddedToken} (hblob : BlobSections view json rest added) (text : String)
    (addSpecialTokens : Bool) :
    IgnoresOnlySpecial lib cs view t rest (view.vocabularyOf rest added) text addSpecialTokens ↔
      view.pl.NoSpecialOverlap (view.componentsOf rest) (view.vocabularyOf rest added) text := by
  have hwith := encodesWith_ignoreSpecial doc h hblob
  rw [IgnoresOnlySpecial, Pipeline.stillRecognized_iff]
  refine and_iff_right_of_imp fun hno σ => ?_
  rw [encode_fst, supportsEncodeFlags,
    validateEncodeOptions_eq_ok.mpr (hwith.accepted addSpecialTokens)]
  refine (encodeOutcome_eq_pipelineOutcome doc hwith text addSpecialTokens).trans ?_
  have hrun := view.pl.run_eq (view.componentsOf rest) (view.vocabularyOf rest added) hno
    addSpecialTokens
  rw [AddedTokens.ignoringSpecial] at hrun
  rw [pipelineOutcome, pipelineOutcome, hrun]

/-- In `"bc"` the special token `ab` does not occur, and `bc` is recognized. -/
theorem ignoreSpecialTokens_bc :
    IgnoresOnlySpecial SampleLibrary.sentencePiece .signed SampleLibrary.view
      (SampleLibrary.loaded SampleLibrary.overlapTokenizer) (none : Option PaddingParams)
        ⟨SampleLibrary.overlapTokens, false⟩ "bc" false := by
  have hblob : BlobSections SampleLibrary.view (strBytes SampleLibrary.overlapJson)
      (none : Option PaddingParams) SampleLibrary.overlapTokens :=
    ⟨SampleLibrary.overlapJson, fromUtf8_strBytes _,
      SampleLibrary.view_sections SampleLibrary.sections_overlap⟩
  refine (ignoreSpecialTokens_iff SampleLibrary.view_documented SampleLibrary.sentencePiece .signed
    (SampleLibrary.loaded_made SampleLibrary.fromStr_overlap) hblob "bc" false).mpr ⟨?_, ?_⟩
  · decide
  · rintro piece - ⟨d, hd, -⟩
    cases (mem_of_mem_scanFrom hd).1

/-- In `"abc"` the skipped match of the special token `ab` hides `bc`. -/
theorem ignoreSpecialTokens_abc :
    HFTokenizer.MadeFromJSON (strBytes SampleLibrary.overlapJson)
        (SampleLibrary.loaded SampleLibrary.overlapTokenizer) ∧
      (∀ σ, ((.huggingFace (SampleLibrary.loaded SampleLibrary.overlapTokenizer) :
        Tokenizer SampleLibrary.crates SampleLibrary.sentencePiece).encode .signed (strBytes "abc")
          ⟨false, .kIgnoreSpecialTokens⟩ σ).1 = .ok [0, 1, 2]) ∧
      pipelineOutcome SampleLibrary.view (none : Option PaddingParams)
        (AddedTokens.withoutSpecial ⟨SampleLibrary.overlapTokens, false⟩) "abc" false =
          .ok [0, 4] ∧
      ¬ IgnoresOnlySpecial SampleLibrary.sentencePiece .signed SampleLibrary.view
        (SampleLibrary.loaded SampleLibrary.overlapTokenizer) (none : Option PaddingParams)
          ⟨SampleLibrary.overlapTokens, false⟩ "abc" false := by
  have hencode : ∀ σ, ((.huggingFace (SampleLibrary.loaded SampleLibrary.overlapTokenizer) :
      Tokenizer SampleLibrary.crates SampleLibrary.sentencePiece).encode .signed (strBytes "abc")
        ⟨false, .kIgnoreSpecialTokens⟩ σ).1 = .ok [0, 1, 2] := by
    intro σ
    rw [encode_fst]
    show (SampleLibrary.loaded SampleLibrary.overlapTokenizer).encodeOutcome (strBytes "abc")
      ⟨false, .kIgnoreSpecialTokens⟩ = _
    rw [HFTokenizer.encodeOutcome_strBytes (SampleLibrary.loaded_handle _)]
    decide
  have hpipeline : pipelineOutcome SampleLibrary.view (none : Option PaddingParams)
      (AddedTokens.withoutSpecial ⟨SampleLibrary.overlapTokens, false⟩) "abc" false =
        .ok [0, 4] := by decide
  refine ⟨SampleLibrary.loaded_made SampleLibrary.fromStr_overlap, hencode, hpipeline, fun h => ?_⟩
  have heq := (hencode Ledger.initial).symm.trans ((h.1 Ledger.initial).trans hpipeline)
  cases heq

end Calls

end TokenizersCpp
