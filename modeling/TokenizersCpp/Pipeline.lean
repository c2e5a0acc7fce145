import TokenizersCpp.LeftmostScan
import TokenizersCpp.Padding

/-!
# The encoding pipeline of the Hugging Face library

What is assumed of the library about added tokens, as the repository relies on
it.  `encode` cuts the text in two extraction passes: the non-normalized entries
of the added vocabulary are searched in the raw text, the normalized ones in the
normalized pieces that are left.  A pass scans a piece with one leftmost-longest
matcher over all its entries; after `set_encode_special_tokens(true)` it skips
the matches of special entries, which have consumed their text.  The remaining
components — normalizer, pre-tokenizer, model, post-processor, truncation — are
parameters.

`PipelineView.Documented` collects the assumptions; `SampleLibrary` is a small
library that meets them.
-/

namespace TokenizersCpp

open LeftmostScan Traversal

/-- `AddedToken`, with the id that the vocabulary gives it. -/
structure AddedToken where
  id : UInt32
  content : String
  singleWord : Bool
  lstrip : Bool
  rstrip : Bool
  normalized : Bool
  special : Bool
deriving DecidableEq, Repr

/-- The part of an `AddedVocabulary` that encoding reads. -/
structure AddedTokens where
  entries : List AddedToken
  encodeSpecialTokens : Bool
deriving DecidableEq, Repr

namespace AddedTokens

/-- `AddedVocabulary::new()`. -/
def new : AddedTokens := ⟨[], false⟩

/-- The vocabulary with exactly the entries that are not special, recognized. -/
def withoutSpecial (vocabulary : AddedTokens) : AddedTokens :=
  ⟨vocabulary.entries.filter fun entry => !entry.special, false⟩

/-- The entries that an extraction pass searches. -/
def inPass (vocabulary : AddedTokens) (normalized : Bool) : List AddedToken :=
  vocabulary.entries.filter fun entry => entry.normalized == normalized

theorem inPass_withoutSpecial (vocabulary : AddedTokens) (normalized : Bool) :
    vocabulary.withoutSpecial.inPass normalized =
      (vocabulary.inPass normalized).filter fun entry => !entry.special :=
  List.filter_comm _ _ _

end AddedTokens

/-- A part of the input: text that the model still has to see, or an added token. -/
inductive Segment (Piece : Type)
  | text (piece : Piece)
  | token (entry : AddedToken) (piece : Piece)

/-- The components of the library's `Tokenizer` besides the added vocabulary, as
functions.  A `Piece` is a part of the input together with its alignment to the
input; `split` cuts a piece at the matches of a pass (it is where `single_word`,
`lstrip` and `rstrip` take effect), and `process` runs everything that follows
the extraction, up to truncation and post-processing. -/
structure Pipeline where
  Components : Type
  Piece : Type
  ofText : String → Piece
  chars : Piece → List Char
  normalize : Components → Piece → Piece
  split : Piece → List (Match AddedToken) → List (Segment Piece)
  process : Components → List (Segment Piece) → Bool → CrateCall (List UInt32)

namespace Pipeline

variable (pl : Pipeline) (components : pl.Components)

/-- What an entry is searched by: its content, and for a normalized entry its
normalized content. -/
def pattern (entry : AddedToken) : List Char :=
  if entry.normalized then
    pl.chars (pl.normalize components (pl.ofText entry.content))
  else
    entry.content.toList

/-- The added tokens that a pass recognizes in a piece. -/
def recognized (vocabulary : AddedTokens) (normalized : Bool) (piece : pl.Piece) :
    List (Match AddedToken) :=
  (scan (pl.pattern components) (vocabulary.inPass normalized) (pl.chars piece)).filter
    fun m => !(vocabulary.encodeSpecialTokens && m.entry.special)

/-- The first pass, over the raw text. -/
def extract (vocabulary : AddedTokens) (text : String) : List (Segment pl.Piece) :=
  let piece := pl.ofText text
  pl.split piece (pl.recognized components vocabulary false piece)

/-- The second pass, over a segment that the first one left. -/
def extractNormalized (vocabulary : AddedTokens) : Segment pl.Piece → List (Segment pl.Piece)
  | .token entry piece => [.token entry piece]
  | .text piece =>
      let piece := pl.normalize components piece
      pl.split piece (pl.recognized components vocabulary true piece)

/-- The ids of one text before padding. -/
def run (vocabulary : AddedTokens) (text : String) (addSpecialTokens : Bool) :
    CrateCall (List UInt32) :=
  pl.process components ((pl.extract components vocabulary text).flatMap
    (pl.extractNormalized components vocabulary)) addSpecialTokens

end Pipeline

/-- A view of the library's tokenizers through a pipeline, and of a JSON text as
its `added_tokens` list and the rest. -/
structure PipelineView (crates : Crates) where
  pl : Pipeline
  components : crates.Tokenizer → pl.Components
  vocabulary : crates.Tokenizer → AddedTokens
  padding : crates.Tokenizer → Option PaddingParams
  /-- The members of a JSON text other than `added_tokens`. -/
  Rest : Type
  sections : String → Option (Rest × List AddedToken)
  componentsOf : Rest → pl.Components
  paddingOf : Rest → Option PaddingParams
  /-- The added vocabulary that a load registers. -/
  vocabularyOf : Rest → List AddedToken → AddedTokens

namespace PipelineView

variable {crates : Crates}

/-- The view of single calls and their padding. -/
def toPaddingView (view : PipelineView crates) : PaddingView crates where
  padding := view.padding
  unpadded tokenizer := view.pl.run (view.components tokenizer) (view.vocabulary tokenizer)

/-- **What the library documents about added tokens.**  `set_encode_special_tokens`
and `with_added_vocabulary` change the added vocabulary only; `from_str` fills it
from `added_tokens` only, and no other component from it. -/
structure Documented (view : PipelineView crates) : Prop where
  padded : view.toPaddingView.Documented
  setEncodeSpecialTokens_spec : ∀ tokenizer value tokenizer',
    crates.setEncodeSpecialTokens tokenizer value = .ok tokenizer' →
      view.components tokenizer' = view.components tokenizer ∧
        view.vocabulary tokenizer' =
          { view.vocabulary tokenizer with encodeSpecialTokens := value }
  withAddedVocabulary_spec : ∀ tokenizer tokenizer',
    crates.withAddedVocabulary tokenizer crates.addedVocabularyNew = .ok tokenizer' →
      view.components tokenizer' = view.components tokenizer ∧ view.vocabulary tokenizer' = .new
  fromStr_spec : ∀ json tokenizer, crates.fromStr json = .ok tokenizer →
    ∃ rest added, view.sections json = some (rest, added) ∧
      view.components tokenizer = view.componentsOf rest ∧
      view.padding tokenizer = view.paddingOf rest ∧
      view.vocabulary tokenizer = view.vocabularyOf rest added
  vocabularyOf_nil : ∀ rest, view.vocabularyOf rest [] = .new

/-- Encoding is a function of the components, the added vocabulary and the
padding. -/
theorem Documented.encode_congr {view : PipelineView crates} (doc : view.Documented)
    {tokenizer tokenizer' : crates.Tokenizer}
    (hcomponents : view.components tokenizer = view.components tokenizer')
    (hvocabulary : view.vocabulary tokenizer = view.vocabulary tokenizer')
    (hpadding : view.padding tokenizer = view.padding tokenizer') (text : String)
    (addSpecialTokens : Bool) :
    crates.encode tokenizer text addSpecialTokens =
      crates.encode tokenizer' text addSpecialTokens := by
  simp only [doc.padded.encode_eq, toPaddingView, hcomponents, hvocabulary, hpadding]

theorem Documented.encodeBatch_congr {view : PipelineView crates} (doc : view.Documented)
    {tokenizer tokenizer' : crates.Tokenizer}
    (hcomponents : view.components tokenizer = view.components tokenizer')
    (hvocabulary : view.vocabulary tokenizer = view.vocabulary tokenizer')
    (hpadding : view.padding tokenizer = view.padding tokenizer') (texts : List String)
    (addSpecialTokens : Bool) :
    crates.encodeBatch tokenizer texts addSpecialTokens =
      crates.encodeBatch tokenizer' texts addSpecialTokens := by
  have hencode : ∀ text, crates.encode tokenizer text addSpecialTokens =
      crates.encode tokenizer' text addSpecialTokens :=
    fun text => doc.encode_congr hcomponents hvocabulary hpadding text addSpecialTokens
  have hpad : view.toPaddingView.padding tokenizer = view.toPaddingView.padding tokenizer' :=
    hpadding
  simp only [doc.padded.encodeBatch_eq, hencode, hpad]

end PipelineView

end TokenizersCpp
