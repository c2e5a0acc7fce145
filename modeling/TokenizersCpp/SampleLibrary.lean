import TokenizersCpp.HuggingFace
import TokenizersCpp.Pipeline
import TokenizersCpp.SentencePiece

/-!
# A small library that meets the assumptions

A character-level model — BPE over single characters, without merges — with
added tokens and padding, and the three JSON texts it loads: a plain one, one
with two overlapping added tokens, and one that pads to the longest entry of a
batch.  `view_documented` shows that it meets every assumption made of the
Hugging Face library, so the assumptions can hold together.  The SentencePiece
library beside it never has a model.
-/

namespace TokenizersCpp

open InsertionLoop LeftmostScan

namespace SampleLibrary

/-! ## JSON texts -/

/-- A `tokenizer.json` over the vocabulary `a`, `b`, `c`, with the given texts for
`padding` and `added_tokens`. -/
def tokenizerJson (padding addedTokens : String) : String :=
  "\x7b\"version\":\"1.0\",\"truncation\":null,\"padding\":" ++ padding ++
    ",\"added_tokens\":[" ++ addedTokens ++ "],\"normalizer\":null,\"pre_tokenizer\":null," ++
    "\"post_processor\":null,\"decoder\":\x7b\"type\":\"Fuse\"\x7d," ++
    "\"model\":\x7b\"type\":\"BPE\",\"vocab\":\x7b\"a\":0,\"b\":1,\"c\":2\x7d,\"merges\":[]\x7d\x7d"

/-- The text of one entry of `added_tokens`, searched in the raw text. -/
def addedTokenJson (id content special : String) : String :=
  "\x7b\"id\":" ++ id ++ ",\"content\":\"" ++ content ++ "\",\"single_word\":false," ++
    "\"lstrip\":false,\"rstrip\":false,\"normalized\":false,\"special\":" ++ special ++ "\x7d"

/-- Neither padding nor added tokens. -/
def plainJson : String := tokenizerJson "null" ""

/-- The special token `ab` and the ordinary added token `bc`. -/
def overlapJson : String :=
  tokenizerJson "null" (addedTokenJson "3" "ab" "true" ++ "," ++ addedTokenJson "4" "bc" "false")

/-- Padding with the id 5 to the longest entry of a batch. -/
def paddedJson : String :=
  tokenizerJson ("\x7b\"strategy\":\"BatchLongest\",\"direction\":\"Right\"," ++
    "\"pad_to_multiple_of\":null,\"pad_id\":5,\"pad_type_id\":0,\"pad_token\":\"[PAD]\"\x7d") ""

/-- The added tokens of `overlapJson`. -/
def overlapTokens : List AddedToken :=
  [⟨3, "ab", false, false, false, false, true⟩, ⟨4, "bc", false, false, false, false, false⟩]

/-- The padding of `paddedJson`. -/
def longestPadding : PaddingParams := ⟨.batchLongest, .right, none, 5⟩

/-- The `padding` and `added_tokens` members of the three texts. -/
def sections (json : String) : Option (Option PaddingParams × List AddedToken) :=
  if json = plainJson then some (none, [])
  else if json = overlapJson then some (none, overlapTokens)
  else if json = paddedJson then some (some longestPadding, [])
  else none

/-! ## The library -/

/-- The vocabulary of the three texts. -/
def vocab : Vocab := insertAll [⟨"a", 0⟩, ⟨"b", 1⟩, ⟨"c", 2⟩] ∅

/-- The library's tokenizer. -/
structure SampleTokenizer where
  model : Vocab
  added : AddedTokens
  padding : Option PaddingParams

/-- Cuts a piece that begins at position `pos` at its matches. -/
def splitFrom : Nat → List Char → List (Match AddedToken) → List (Segment (List Char))
  | _, piece, [] => [.text piece]
  | pos, piece, m :: ms =>
      let length := m.entry.content.length
      let rest := piece.drop (m.start - pos)
      .text (piece.take (m.start - pos)) :: .token m.entry (rest.take length) ::
        splitFrom (m.start + length) (rest.drop length) ms

/-- The ids of a segment; a character outside the vocabulary has none. -/
def segmentIds (model : Vocab) : Segment (List Char) → List UInt32
  | .token entry _ => [entry.id]
  | .text piece => piece.filterMap fun c => model.lookup (String.ofList [c])

/-- The components of the three texts: a model and nothing else. -/
def pipeline : Pipeline where
  Components := Vocab
  Piece := List Char
  ofText := String.toList
  chars piece := piece
  normalize _ piece := piece
  split piece ms := splitFrom 0 piece ms
  process model segments _ := .ok (segments.flatMap (segmentIds model))

/-- A JSON value of a BPE vocabulary. -/
inductive JsonValue
  | number (n : UInt64)
  | object (entries : List (String × JsonValue))

/-- The token of an id: an added token, or an entry of the vocabulary. -/
def tokenOf (t : SampleTokenizer) (id : UInt32) : Option String :=
  ((t.added.entries.find? fun entry => entry.id == id).map AddedToken.content).or
    ((t.model.entries.find? fun pair => pair.2 == id).map Sigma.fst)

/-- The id of a token. -/
def idOf (t : SampleTokenizer) (token : String) : Option UInt32 :=
  ((t.added.entries.find? fun entry => entry.content == token).map AddedToken.id).or
    (t.model.lookup token)

/-- The ids of one text before padding. -/
def unpadded (t : SampleTokenizer) (text : String) (addSpecialTokens : Bool) :
    CrateCall (List UInt32) :=
  pipeline.run t.model t.added text addSpecialTokens

def encode (t : SampleTokenizer) (text : String) (addSpecialTokens : Bool) :
    CrateCall (List UInt32) :=
  (unpadded t text addSpecialTokens).map (padEncoding t.padding)

def encodeBatch (t : SampleTokenizer) (texts : List String) (addSpecialTokens : Bool) :
    CrateCall (List (List UInt32)) :=
  (texts.mapM fun text => encode t text addSpecialTokens).map (padEncodings t.padding)

def fromStr (json : String) : CrateCall SampleTokenizer :=
  match sections json with
  | some (padding, added) => .ok ⟨vocab, ⟨added, false⟩, padding⟩
  | none => .error (.error "expected value at line 1 column 1")

/-- The library. -/
def crates : Crates where
  Tokenizer := SampleTokenizer
  AddedVocabulary := AddedTokens
  BPE := Vocab
  fromStr := fromStr
  setEncodeSpecialTokens t value :=
    .ok { t with added := { t.added with encodeSpecialTokens := value } }
  addedVocabularyNew := .new
  withAddedVocabulary t added := .ok { t with added }
  bpeNew model merges :=
    if merges = [] then .ok model else .error (.str "MergeTokenOutOfVocabulary")
  tokenizerNew model := ⟨model, .new, none⟩
  withPreTokenizer t _ := t
  withDecoder t _ := t
  encode := encode
  encodeBatch := encodeBatch
  decode t ids _ := .ok (String.join (ids.filterMap (tokenOf t)))
  idToToken := tokenOf
  tokenToId := idOf
  getVocabSize t withAdded :=
    t.model.entries.length + if withAdded then t.added.entries.length else 0
  Value := JsonValue
  jsonFromStr text :=
    if text = "\x7b\"a\":0,\"b\":1\x7d" then .ok (.object [("a", .number 0), ("b", .number 1)])
    else .error "expected value at line 1 column 1"
  asObject
    | .object entries => some entries
    | .number _ => none
  asU64
    | .number n => some n
    | .object _ => none
  debugStr text := "\"" ++ text ++ "\""
  utf8Error _ := "invalid utf-8 sequence"

/-- The view of the library that the assumptions speak of. -/
def view : PipelineView crates where
  pl := pipeline
  components := SampleTokenizer.model
  vocabulary := SampleTokenizer.added
  padding := SampleTokenizer.padding
  Rest := Option PaddingParams
  sections := sections
  componentsOf _ := vocab
  paddingOf rest := rest
  vocabularyOf _ added := ⟨added, false⟩

/-- **The library meets every assumption.** -/
theorem view_documented : view.Documented where
  padded :=
    { encode_eq := fun _ _ _ => rfl
      encodeBatch_eq := fun _ _ _ => rfl
      setEncodeSpecialTokens_padding := fun _ _ _ h => by cases h; rfl
      withAddedVocabulary_padding := fun _ _ _ h => by cases h; rfl
      tokenizerNew_padding := fun _ => rfl
      withPreTokenizer_padding := fun _ _ => rfl
      withDecoder_padding := fun _ _ => rfl }
  setEncodeSpecialTokens_spec := fun _ _ _ h => by cases h; exact ⟨rfl, rfl⟩
  withAddedVocabulary_spec := fun _ _ h => by cases h; exact ⟨rfl, rfl⟩
  fromStr_spec := by
    intro json tokenizer h
    change fromStr json = .ok tokenizer at h
    unfold fromStr at h
    cases hsections : sections json with
    | none =>
      rw [hsections] at h
      cases h
    | some parts =>
      rw [hsections] at h
      cases h
      exact ⟨parts.1, parts.2, hsections, rfl, rfl, rfl⟩
  vocabularyOf_nil := fun _ => rfl

/-! ## The tokenizers of the three texts -/

/-- The wrapper that a load builds around a tokenizer of the library. -/
def wrapperOf (t : SampleTokenizer) : TokenizerWrapper crates where
  tokenizer := t
  encodeVariants := some
    { ignoreSpecialTokens := { t with added := { t.added with encodeSpecialTokens := true } }
      ignoreAddedTokens := { t with added := .new } }
  decodeStr := .new
  idToTokenResult := .new

/-- The C++ object around it. -/
def loaded (t : SampleTokenizer) : HFTokenizer crates :=
  ⟨some (intoRaw (wrapperOf t) Ledger.initial).1, true⟩

theorem loaded_handle (t : SampleTokenizer) : (loaded t).handle = some ⟨0, wrapperOf t⟩ := rfl

theorem fromStr_wrapperOf {json : String} {t : SampleTokenizer} (h : fromStr json = .ok t) :
    TokenizerWrapper.fromStr crates json = .ok (wrapperOf t) :=
  (TokenizerWrapper.fromStr_eq_ok crates).mpr ⟨t, _, _, h, rfl, rfl, rfl⟩

theorem loaded_made {json : String} {t : SampleTokenizer} (h : fromStr json = .ok t) :
    HFTokenizer.MadeFromJSON (strBytes json) (loaded t) :=
  HFTokenizer.madeFromJSON_of_fromStr (fromUtf8_strBytes json) (fromStr_wrapperOf h)

def plainTokenizer : SampleTokenizer := ⟨vocab, .new, none⟩
def overlapTokenizer : SampleTokenizer := ⟨vocab, ⟨overlapTokens, false⟩, none⟩
def paddedTokenizer : SampleTokenizer := ⟨vocab, .new, some longestPadding⟩

theorem sections_plain : sections plainJson = some (none, []) := if_pos rfl

theorem sections_overlap : sections overlapJson = some (none, overlapTokens) := by
  rw [sections, if_neg (by decide), if_pos rfl]

theorem sections_padded : sections paddedJson = some (some longestPadding, []) := by
  rw [sections, if_neg (by decide), if_neg (by decide), if_pos rfl]

/-- The view reads the members of a text. -/
theorem view_sections {json : String} {parts : Option PaddingParams × List AddedToken}
    (h : sections json = some parts) : view.sections json = some parts := h

theorem fromStr_plain : fromStr plainJson = .ok plainTokenizer := by
  rw [fromStr, sections_plain]
  rfl

theorem fromStr_overlap : fromStr overlapJson = .ok overlapTokenizer := by
  rw [fromStr, sections_overlap]
  rfl

theorem fromStr_padded : fromStr paddedJson = .ok paddedTokenizer := by
  rw [fromStr, sections_padded]
  rfl

/-- A SentencePiece library that cannot parse any blob; a processor without a
model reports so. -/
def sentencePiece : SentencePieceLibrary where
  Processor := Unit
  new := ()
  loadFromSerializedProto _ _ := (.error "could not parse ModelProto", ())
  encode _ _ := (.error "Model is not initialized.", [])
  decode _ _ := (.error "Model is not initialized.", [])
  getPieceSize _ := 0
  idToPiece _ _ := []
  pieceToId _ _ := 0

end SampleLibrary

end TokenizersCpp
