import TokenizersCpp.Interface

/-!
# The SentencePiece backend

`sentencepiece_tokenizer.cc` over a parameter for the SentencePiece library,
about which nothing is assumed.  Every call that returns a status drops it with
`IgnoreError`.
-/

namespace TokenizersCpp

/-- `sentencepiece::util::Status`: success, or a failure with its message. -/
inductive SentencePieceStatus
  | ok
  | error (message : String)
deriving DecidableEq, Repr

/-- What the backend uses of `sentencepiece::SentencePieceProcessor`.  A call with
an output parameter returns its status and what it left in the parameter. -/
structure SentencePieceLibrary where
  Processor : Type
  /-- A processor without a model. -/
  new : Processor
  loadFromSerializedProto : Processor → Bytes → SentencePieceStatus × Processor
  encode : Processor → Bytes → SentencePieceStatus × List Int32
  decode : Processor → List Int32 → SentencePieceStatus × Bytes
  getPieceSize : Processor → Int32
  idToPiece : Processor → Int32 → Bytes
  pieceToId : Processor → Bytes → Int32

/-- `SentencePieceTokenizer`. -/
structure SentencePieceTokenizer (lib : SentencePieceLibrary) where
  sentencePiece : lib.Processor

namespace SentencePieceTokenizer

variable {lib : SentencePieceLibrary}

/-- The constructor; the status of the load is not looked at. -/
def construct (lib : SentencePieceLibrary) (modelBlob : Bytes) : SentencePieceTokenizer lib :=
  ⟨(lib.loadFromSerializedProto lib.new modelBlob).2⟩

/-- `EncodeImpl(text, options)`: the status of the call is not looked at, and the
options are not used. -/
def encodeImpl (t : SentencePieceTokenizer lib) (text : Bytes) (_options : EncodeOptions) :
    Except CppException (List Int32) :=
  let (_status, tokens) := lib.encode t.sentencePiece text
  .ok tokens

/-- `Decode(ids)`. -/
def decode (t : SentencePieceTokenizer lib) (ids : List Int32) : Bytes :=
  let (_status, text) := lib.decode t.sentencePiece ids
  text

/-- `GetVocabSize()`; the assertion on the size is left to its callers. -/
def getVocabSize (t : SentencePieceTokenizer lib) : Int32 := lib.getPieceSize t.sentencePiece

/-- `IdToToken(id)`. -/
def idToToken (t : SentencePieceTokenizer lib) (id : Int32) : Bytes :=
  lib.idToPiece t.sentencePiece id

/-- `TokenToId(token)`. -/
def tokenToId (t : SentencePieceTokenizer lib) (token : Bytes) : Int32 :=
  lib.pieceToId t.sentencePiece token

end SentencePieceTokenizer

end TokenizersCpp
