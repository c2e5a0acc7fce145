import TokenizersCpp.BpeVocabulary
import TokenizersCpp.Dispatch
import TokenizersCpp.RwkvLookup

/-!
# What the factories return

The checks on the size of the vocabulary stand in `GetVocabSize`, `IdToToken` and
`TokenToId`; whether they can fail is decided by what the four factories accept, and
by whether the library is built with SentencePiece.  A model that names a token gives
an object on which no check can fail, whatever calls come after (`factories_usable`).
No factory asks for a token, and `FromBlobSentencePiece` does not look at the status
of its load: `usable_iff` says for which models this matters.
-/

namespace TokenizersCpp

open InsertionLoop

/-- What the library is built from: the libraries it calls, the sign of the platform's
`char`, and whether `MLC_ENABLE_SENTENCEPIECE_TOKENIZER` is on. -/
structure Build where
  crates : Crates
  lib : SentencePieceLibrary
  cs : CharSign
  /-- `msgpack::unpack` and `as<std::unordered_map<int, std::string>>`. -/
  unpack : Bytes → Except CppException (Finmap fun _ : Int32 => Bytes)
  enableSentencePiece : Bool

/-- `Tokenizer::FromBlobSentencePiece(model_blob)`, of `sentencepiece_tokenizer.cc` or of
`sentencepiece_tokenizer_disabled.cc`; `none` is a null pointer. -/
def fromBlobSentencePiece (b : Build) (modelBlob : Bytes) :
    Option (SentencePieceTokenizer b.lib) :=
  if b.enableSentencePiece then some (.construct b.lib modelBlob) else none

/-- A factory with its arguments.  The argument of `FromBlobRWKVWorld` is a path; `content`
is what the file there holds. -/
inductive Model
  | json (json : Bytes)
  | byteLevelBPE (vocab merges addedTokens : Bytes)
  | sentencePiece (modelBlob : Bytes)
  | rwkvWorld (content : Bytes)

namespace Factories

/-- The pointers that a factory can return, in some run and for some iteration order of
the RWKV maps. -/
inductive Returns (b : Build) : Model → Option (Tokenizer b.crates b.lib) → Prop
  | json {json : Bytes} {t : HFTokenizer b.crates} (h : HFTokenizer.MadeFromJSON json t) :
      Returns b (.json json) (some (.huggingFace t))
  | byteLevelBPE {vocab merges addedTokens : Bytes} {t : HFTokenizer b.crates}
      (h : HFTokenizer.MadeFromBPE vocab merges addedTokens t) :
      Returns b (.byteLevelBPE vocab merges addedTokens) (some (.huggingFace t))
  | sentencePiece (modelBlob : Bytes) :
      Returns b (.sentencePiece modelBlob)
        ((fromBlobSentencePiece b modelBlob).map Tokenizer.sentencePiece)
  | rwkvWorld {content : Bytes} {m : Finmap fun _ : Int32 => Bytes} {t : RWKVWorldTokenizer}
      (hmap : b.unpack content = .ok m) (h : RWKVWorldTokenizer.LoadedFrom b.cs m t) :
      Returns b (.rwkvWorld content) (some (.rwkvWorld t))

/-- What a caller holds: a returned object, after any number of the calls that change the
wrapper behind its handle. -/
inductive Later {crates : Crates} {lib : SentencePieceLibrary} (t : Tokenizer crates lib) :
    Tokenizer crates lib → Prop
  | returned : Later t t
  | decode {t' : HFTokenizer crates} (h : Later t (.huggingFace t')) (ids : List Int32)
      (skipSpecialTokens : Bool) : Later t (.huggingFace (t'.decode ids skipSpecialTokens).2)
  | idToToken {t' : HFTokenizer crates} (h : Later t (.huggingFace t')) (id : Int32) :
      Later t (.huggingFace (t'.idToToken id).2)

/-- The checks `size > 0` hold: the assertions of `GetVocabSize`, and the `RV_CHECK`s of
`GetVocabSize`, `IdToToken` and `TokenToId`. -/
def ChecksHold {crates : Crates} {lib : SentencePieceLibrary} : Tokenizer crates lib → Prop
  | .huggingFace t => 0 < t.getVocabSize
  | .sentencePiece t => 0 < t.getVocabSize
  | .rwkvWorld t => (∃ size, t.getVocabSize = .ok size) ∧
      (∀ id, ∃ token, t.idToToken id = .ok token) ∧ ∀ token, ∃ id, t.tokenToId token = .ok id

/-- The backend reports that the load succeeded. -/
def LoadReported (b : Build) : Model → Prop
  | .json json => ∀ σ, (tokenizersNewFromStr (some json) json.length (some none) (some .null) σ :
      FfiReturn (Option (TokenizerHandle b.crates))).status = .ok
  | .byteLevelBPE vocab merges addedTokens => ∀ σ,
      (byteLevelBpeTokenizersNewFromStr (some vocab) vocab.length (some merges) merges.length
        (some addedTokens) addedTokens.length (some none) (some .null) σ :
          FfiReturn (Option (TokenizerHandle b.crates))).status = .ok
  | .sentencePiece modelBlob => (b.lib.loadFromSerializedProto b.lib.new modelBlob).1 = .ok
  | .rwkvWorld content => ∃ m, b.unpack content = .ok m

/-! ## Vocabularies -/

/-- What the libraries make of a model. -/
structure View (b : Build) where
  /-- `get_vocab(true)`, the tokens of a tokenizer with their ids. -/
  getVocab : b.crates.Tokenizer → Vocab
  /-- The tokens of a JSON text that the library accepts. -/
  jsonTokens : String → Option (List String)
  /-- The pieces of a blob that SentencePiece accepts. -/
  pieces : Bytes → Option (List Bytes)

variable {b : Build}

/-- What the libraries document of this.  The size of a vocabulary counts its distinct
tokens; a tokenizer has the tokens of the JSON text, or of the vocabulary that `BPE::new`
was given; a failed load of a SentencePiece model is reported by its status, and leaves a
processor without pieces. -/
structure View.Documented (view : View b) : Prop where
  size_eq : ∀ tokenizer,
    b.crates.getVocabSize tokenizer true = (view.getVocab tokenizer).entries.length
  fromStr_tokens : ∀ {text tokenizer}, b.crates.fromStr text = .ok tokenizer →
    ∃ tokens, view.jsonTokens text = some tokens ∧
      ∀ token, token ∈ view.getVocab tokenizer ↔ token ∈ tokens
  bpeNew_tokens : ∀ {vocab merges bpe}, b.crates.bpeNew vocab merges = .ok bpe →
    ∀ token, (view.getVocab (TokenizerWrapper.bpeWrapper bpe).tokenizer).lookup token =
      vocab.lookup token
  accepted : ∀ {blob pieces}, view.pieces blob = some pieces →
    (b.lib.loadFromSerializedProto b.lib.new blob).1 = .ok ∧
      (b.lib.getPieceSize (b.lib.loadFromSerializedProto b.lib.new blob).2).toInt = pieces.length
  rejected : ∀ {blob}, view.pieces blob = none →
    (b.lib.loadFromSerializedProto b.lib.new blob).1 ≠ .ok ∧
      b.lib.getPieceSize (b.lib.loadFromSerializedProto b.lib.new blob).2 = 0

/-- What `from_str` needs of the library to return: the library accepts the texts whose
tokens are known, and its setters do not panic. -/
structure View.Accepts (view : View b) : Prop where
  fromStr : ∀ {text tokens}, view.jsonTokens text = some tokens →
    ∃ tokenizer, b.crates.fromStr text = .ok tokenizer
  setEncodeSpecialTokens : ∀ tokenizer value,
    ∃ tokenizer', b.crates.setEncodeSpecialTokens tokenizer value = .ok tokenizer'
  withAddedVocabulary : ∀ tokenizer added,
    ∃ tokenizer', b.crates.withAddedVocabulary tokenizer added = .ok tokenizer'

/-- The vocabulary of an object has a token. -/
def HasToken (view : View b) : Tokenizer b.crates b.lib → Prop
  | .huggingFace t => ∃ box token, t.handle = some box ∧ token ∈ view.getVocab box.value.tokenizer
  | .sentencePiece t => 0 < t.getVocabSize
  | .rwkvWorld t => ∃ id word, t.idx2word.lookup id = some word

/-- The model names a token: the JSON text or one of the two BPE blobs does, the msgpack
map has an entry, or SentencePiece accepts the blob and it has a piece. -/
def NamesToken (view : View b) : Model → Prop
  | .json json => ∃ text tokens, fromUtf8 json = some text ∧ view.jsonTokens text = some tokens ∧
      tokens ≠ []
  | .byteLevelBPE vocab merges addedTokens => ∃ ids added pairs,
      Reads b.crates vocab merges addedTokens ids added pairs ∧ ids ++ added ≠ []
  | .sentencePiece modelBlob => ∃ pieces, view.pieces modelBlob = some pieces ∧ pieces ≠ []
  | .rwkvWorld content => ∃ m, b.unpack content = .ok m ∧ m ≠ ∅

/-- A returned object can be used: its load succeeded, it has a token, and no check can
fail on it or on what later calls make of it. -/
structure Usable (view : View b) (model : Model) (t : Tokenizer b.crates b.lib) : Prop where
  loadReported : LoadReported b model
  hasToken : HasToken view t
  checksHold : ∀ t', Later t t' → ChecksHold t'

/-! ## The checks -/

section Checks
variable {view : View b}

theorem getVocabSize_decode {crates : Crates} (t : HFTokenizer crates) (ids : List Int32)
    (skipSpecialTokens : Bool) : (t.decode ids skipSpecialTokens).2.getVocabSize =
      t.getVocabSize := by
  obtain ⟨handle, supports⟩ := t
  cases handle with
  | none => rfl
  | some box => cases ids <;> rfl

theorem getVocabSize_idToToken {crates : Crates} (t : HFTokenizer crates) (id : Int32) :
    (t.idToToken id).2.getVocabSize = t.getVocabSize := by
  obtain ⟨handle, supports⟩ := t
  cases handle <;> rfl

/-- The calls that change an object do not change the size of its vocabulary. -/
theorem ChecksHold.later {crates : Crates} {lib : SentencePieceLibrary}
    {t t' : Tokenizer crates lib} (h : ChecksHold t) (hlater : Later t t') : ChecksHold t' := by
  induction hlater with
  | returned => exact h
  | decode _ ids skipSpecialTokens ih =>
    rw [ChecksHold, getVocabSize_decode]
    exact ih
  | idToToken _ id ih =>
    rw [ChecksHold, getVocabSize_idToToken]
    exact ih

/-- In an RWKV tokenizer with an entry no check fails. -/
theorem checksHold_rwkvWorld {crates : Crates} {lib : SentencePieceLibrary}
    {t : RWKVWorldTokenizer} (hid : 0 < t.idx2word.entries.length)
    (hword : 0 < t.word2idx.entries.length) :
    ChecksHold (.rwkvWorld t : Tokenizer crates lib) := by
  refine ⟨⟨t.idx2word.entries.length, ?_⟩, fun id => ?_, fun token => ?_⟩
  · simp only [RWKVWorldTokenizer.getVocabSize, hid, decide_true, rvCheck_true]
    rfl
  · simp only [RWKVWorldTokenizer.idToToken, hid, decide_true, rvCheck_true]
    cases t.idx2word.lookup id <;> exact ⟨_, rfl⟩
  · simp only [RWKVWorldTokenizer.tokenToId, hword, decide_true, rvCheck_true]
    cases t.word2idx.lookup token <;> exact ⟨_, rfl⟩

/-- A returned RWKV tokenizer was loaded from some map. -/
theorem loadedFrom_of_returns {model : Model} {result : Option (Tokenizer b.crates b.lib)}
    (h : Returns b model result) {t : RWKVWorldTokenizer} (ht : result = some (.rwkvWorld t)) :
    ∃ m, RWKVWorldTokenizer.LoadedFrom b.cs m t := by
  cases h with
  | json h => cases ht
  | byteLevelBPE h => cases ht
  | sentencePiece modelBlob =>
    obtain ⟨t', -, ht⟩ := Option.map_eq_some_iff.mp ht
    cases ht
  | rwkvWorld hmap h =>
    cases ht
    exact ⟨_, h⟩

/-- **No check fails on an object with a token**, for every object that a factory
returned. -/
theorem checksHold_of_hasToken (hdoc : view.Documented) {model : Model}
    {t : Tokenizer b.crates b.lib} (h : Returns b model (some t)) (htoken : HasToken view t) :
    ChecksHold t := by
  cases t with
  | huggingFace t =>
    obtain ⟨box, token, hhandle, htoken⟩ := htoken
    show 0 < t.getVocabSize
    obtain ⟨id, hid⟩ := Option.isSome_iff_exists.mp (AList.lookup_isSome.mpr htoken)
    rw [HFTokenizer.getVocabSize_eq hhandle, hdoc.size_eq]
    exact RWKVWorldTokenizer.length_pos_of_lookup hid
  | sentencePiece t => exact htoken
  | rwkvWorld t =>
    obtain ⟨id, word, hid⟩ := htoken
    obtain ⟨m, hload⟩ := loadedFrom_of_returns h rfl
    obtain ⟨id', hid'⟩ := Option.isSome_iff_exists.mp
      (hload.isSome_of_mem ((hload.idx2word_lookup id).symm.trans hid))
    exact checksHold_rwkvWorld (RWKVWorldTokenizer.length_pos_of_lookup hid)
      (RWKVWorldTokenizer.length_pos_of_lookup hid')

end Checks

/-! ## Loads -/

/-- A Hugging Face factory returns only after its entry point reported success. -/
theorem status_of_fromReturn {crates : Crates} {newFails : Bool} {nullMessage outMessage : String}
    {supportsEncodeFlags : Bool} {compute : Rust (TokenizerWrapper crates)} {σ σ' : Ledger}
    {t : HFTokenizer crates}
    (h : HFTokenizer.fromReturn newFails nullMessage supportsEncodeFlags
      (ffiCall (some .null) (writeSlot outMessage none some (some none) compute) σ) = (.ok t, σ'))
    (σ'' : Ledger) :
    (ffiCall (some .null) (writeSlot outMessage none some (some none) compute) σ'').status =
      .ok := by
  obtain ⟨box, hcompute, -⟩ := HFTokenizer.wrapper_of_fromReturn h
  rw [ffiCall_ok (by rw [writeSlot_ok hcompute])]

/-- **Every backend but SentencePiece** has reported success when its factory returns. -/
theorem loadReported_of_returns {model : Model} {result : Option (Tokenizer b.crates b.lib)}
    (h : Returns b model result) (hmodel : ∀ modelBlob, model ≠ .sentencePiece modelBlob) :
    LoadReported b model := by
  cases h with
  | json h =>
    obtain ⟨newFails, σ, σ', h⟩ := h
    exact status_of_fromReturn h
  | byteLevelBPE h =>
    obtain ⟨newFails, σ, σ', h⟩ := h
    exact status_of_fromReturn h
  | sentencePiece modelBlob => exact absurd rfl (hmodel modelBlob)
  | rwkvWorld hmap h => exact ⟨_, hmap⟩

section Tokens
variable {view : View b}

/-- A JSON tokenizer has the tokens of its text. -/
theorem tokens_of_madeFromJSON (hdoc : view.Documented) {json : Bytes} {t : HFTokenizer b.crates}
    (h : HFTokenizer.MadeFromJSON json t) :
    ∃ text box tokens, fromUtf8 json = some text ∧ t = ⟨some box, true⟩ ∧
      view.jsonTokens text = some tokens ∧
      ∀ token, token ∈ view.getVocab box.value.tokenizer ↔ token ∈ tokens := by
  obtain ⟨text, box, htext, hbox, rfl⟩ := h.wrapper
  obtain ⟨tokenizer, _, _, hfromStr, -, -, hw⟩ := (TokenizerWrapper.fromStr_eq_ok _).mp hbox
  obtain ⟨tokens, htokens, hmem⟩ := hdoc.fromStr_tokens hfromStr
  have htokenizer : box.value.tokenizer = tokenizer := by rw [hw]
  exact ⟨text, box, tokens, htext, rfl, htokens, by rwa [htokenizer]⟩

theorem hasToken_json (hdoc : view.Documented) {json : Bytes} {t : HFTokenizer b.crates}
    (h : HFTokenizer.MadeFromJSON json t) :
    HasToken view (.huggingFace t) ↔ NamesToken view (.json json) := by
  obtain ⟨text, box, tokens, htext, rfl, htokens, hmem⟩ := tokens_of_madeFromJSON hdoc h
  constructor
  · rintro ⟨_, token, ⟨⟩, htoken⟩
    exact ⟨text, tokens, htext, htokens, List.ne_nil_of_mem ((hmem token).mp htoken)⟩
  · rintro ⟨text', tokens', htext', htokens', hne⟩
    obtain rfl := Option.some.inj (htext.symm.trans htext')
    obtain rfl := Option.some.inj (htokens.symm.trans htokens')
    obtain ⟨token, htoken⟩ := List.exists_mem_of_ne_nil tokens hne
    exact ⟨box, token, rfl, (hmem token).mpr htoken⟩

/-- A byte-level BPE tokenizer has a token exactly when one of its blobs does. -/
theorem hasToken_of_reads (hdoc : view.Documented) {vocab merges addedTokens : Bytes}
    {t : HFTokenizer b.crates} (h : HFTokenizer.MadeFromBPE vocab merges addedTokens t)
    {ids added : TokenIds} {pairs : Merges}
    (hreads : Reads b.crates vocab merges addedTokens ids added pairs) :
    HasToken view (.huggingFace t) ↔ ids ++ added ≠ [] := by
  obtain ⟨addr, bpe, hbpe, rfl⟩ := h.model hreads
  have htokens : ∀ token, token ∈ view.getVocab (TokenizerWrapper.bpeWrapper bpe).tokenizer ↔
      ∃ id, ⟨token, id⟩ ∈ ids ++ added := fun token => by
    rw [← AList.lookup_isSome, hdoc.bpeNew_tokens hbpe, isSome_overlay]
  constructor
  · rintro ⟨_, token, ⟨⟩, htoken⟩
    obtain ⟨id, hid⟩ := (htokens token).mp htoken
    exact List.ne_nil_of_mem hid
  · intro hne
    obtain ⟨⟨token, id⟩, hid⟩ := List.exists_mem_of_ne_nil _ hne
    exact ⟨_, token, rfl, (htokens token).mpr ⟨id, hid⟩⟩

theorem hasToken_byteLevelBPE (hdoc : view.Documented) {vocab merges addedTokens : Bytes}
    {t : HFTokenizer b.crates} (h : HFTokenizer.MadeFromBPE vocab merges addedTokens t) :
    HasToken view (.huggingFace t) ↔ NamesToken view (.byteLevelBPE vocab merges addedTokens) := by
  constructor
  · intro htoken
    obtain ⟨ids, added, pairs, hreads⟩ := h.reads
    exact ⟨ids, added, pairs, hreads, (hasToken_of_reads hdoc h hreads).mp htoken⟩
  · rintro ⟨ids, added, pairs, hreads, hne⟩
    exact (hasToken_of_reads hdoc h hreads).mpr hne

theorem hasToken_sentencePiece (hdoc : view.Documented) (modelBlob : Bytes) :
    HasToken view (.sentencePiece (.construct b.lib modelBlob)) ↔
      NamesToken view (.sentencePiece modelBlob) := by
  show 0 < b.lib.getPieceSize (b.lib.loadFromSerializedProto b.lib.new modelBlob).2 ↔
    ∃ pieces, view.pieces modelBlob = some pieces ∧ pieces ≠ []
  cases hpieces : view.pieces modelBlob with
  | none =>
    rw [(hdoc.rejected hpieces).2]
    exact iff_of_false (by decide) nofun
  | some pieces =>
    have hsize := (hdoc.accepted hpieces).2
    rw [Int32.lt_iff_toInt_lt, hsize, Int32.toInt_zero]
    constructor
    · intro hpos
      exact ⟨pieces, rfl, List.length_pos_iff.mp (by omega)⟩
    · rintro ⟨_, ⟨⟩, hne⟩
      have hpos := List.length_pos_iff.mpr hne
      omega

theorem hasToken_rwkvWorld {content : Bytes} {m : Finmap fun _ : Int32 => Bytes}
    {t : RWKVWorldTokenizer} (hmap : b.unpack content = .ok m)
    (h : RWKVWorldTokenizer.LoadedFrom b.cs m t) :
    HasToken view (.rwkvWorld t) ↔ NamesToken view (.rwkvWorld content) := by
  constructor
  · rintro ⟨id, word, hid⟩
    rw [h.idx2word_lookup] at hid
    refine ⟨m, hmap, fun hempty => ?_⟩
    rw [hempty, Finmap.lookup_empty] at hid
    cases hid
  · rintro ⟨m', hmap', hne⟩
    obtain rfl := Except.ok.inj (hmap.symm.trans hmap')
    by_contra hnone
    refine hne (Finmap.ext_lookup fun id => ?_)
    rw [Finmap.lookup_empty, ← h.idx2word_lookup]
    cases hid : t.idx2word.lookup id with
    | none => rfl
    | some word => exact absurd ⟨id, word, hid⟩ hnone

/-- **A returned object has a token** exactly when its model names one. -/
theorem hasToken_iff (hdoc : view.Documented) {model : Model}
    {result : Option (Tokenizer b.crates b.lib)} (h : Returns b model result)
    {t : Tokenizer b.crates b.lib} (ht : result = some t) :
    HasToken view t ↔ NamesToken view model := by
  cases h with
  | json h =>
    cases ht
    exact hasToken_json hdoc h
  | byteLevelBPE h =>
    cases ht
    exact hasToken_byteLevelBPE hdoc h
  | sentencePiece modelBlob =>
    obtain ⟨t', ht', rfl⟩ := Option.map_eq_some_iff.mp ht
    rw [fromBlobSentencePiece] at ht'
    split at ht'
    · obtain rfl := Option.some.inj ht'
      exact hasToken_sentencePiece hdoc modelBlob
    · cases ht'
  | rwkvWorld hmap h =>
    cases ht
    exact hasToken_rwkvWorld hmap h

end Tokens

end Factories

/-! ## A build -/

namespace SampleLibrary

/-- A `tokenizer.json` without tokens. -/
def emptyJson : String :=
  "\x7b\"version\":\"1.0\",\"truncation\":null,\"padding\":null,\"added_tokens\":[]," ++
    "\"normalizer\":null,\"pre_tokenizer\":null,\"post_processor\":null,\"decoder\":null," ++
    "\"model\":\x7b\"type\":\"BPE\",\"vocab\":\x7b\x7d,\"merges\":[]\x7d\x7d"

/-- `get_vocab(true)`. -/
def getVocab (t : SampleTokenizer) : Vocab :=
  insertAll (t.added.entries.map fun entry => ⟨entry.content, entry.id⟩) t.model

def loadJson (json : String) : CrateCall SampleTokenizer :=
  if json = emptyJson then .ok ⟨∅, .new, none⟩ else fromStr json

theorem loadJson_empty : loadJson emptyJson = .ok ⟨∅, .new, none⟩ := by
  rw [loadJson, if_pos rfl]

/-- The tokens of the texts that can be loaded. -/
def jsonTokens (json : String) : Option (List String) :=
  if json = emptyJson then some []
  else (sections json).map fun parts => ["a", "b", "c"] ++ parts.2.map AddedToken.content

/-- The sample library with this text, and with vocabularies that are counted. -/
def factoryCrates : Crates :=
  { bpeCrates with
    fromStr := loadJson
    getVocabSize := fun t withAdded =>
      if withAdded then (getVocab t).entries.length else t.model.entries.length }

/-- The msgpack map `{0: "a", 1: "b"}`. -/
def abContent : Bytes := [0x82, 0x00, 0xa1, 0x61, 0x01, 0xa1, 0x62]

/-- This map and the empty one can be unpacked. -/
def unpack (content : Bytes) : Except CppException (Finmap fun _ : Int32 => Bytes) :=
  if content = [0x80] then .ok ∅
  else if content = abContent then .ok RWKVWorldTokenizer.abIdx2Word.toFinmap
  else .error (.stdException "std::bad_cast")

/-- The build with or without SentencePiece. -/
def build (enableSentencePiece : Bool) : Build :=
  ⟨factoryCrates, sentencePiece, .signed, unpack, enableSentencePiece⟩

/-- The view of the sample libraries. -/
def factoryView (enableSentencePiece : Bool) : Factories.View (build enableSentencePiece) where
  getVocab := getVocab
  jsonTokens := jsonTokens
  pieces _ := none

theorem mem_vocab {token : String} : token ∈ vocab ↔ token ∈ ["a", "b", "c"] := by
  have hkeys : vocab.keys = ["a", "b", "c"].reverse := by decide
  rw [AList.mem_keys, hkeys, List.mem_reverse]

theorem mem_getVocab {padding : Option PaddingParams} {added : List AddedToken} {token : String} :
    token ∈ getVocab ⟨vocab, ⟨added, false⟩, padding⟩ ↔
      token ∈ ["a", "b", "c"] ++ added.map AddedToken.content := by
  rw [getVocab, ← AList.lookup_isSome, lookup_insertAll_isSome, AList.lookup_isSome, mem_vocab,
    List.mem_append, or_comm]
  simp

theorem jsonTokens_of_load {json : String} {t : SampleTokenizer} (h : loadJson json = .ok t) :
    ∃ tokens, jsonTokens json = some tokens ∧ ∀ token, token ∈ getVocab t ↔ token ∈ tokens := by
  unfold loadJson at h
  unfold jsonTokens
  by_cases hempty : json = emptyJson
  · rw [if_pos hempty] at h ⊢
    cases h
    exact ⟨[], rfl, fun token => iff_of_false (AList.notMem_empty _) List.not_mem_nil⟩
  · rw [if_neg hempty] at h ⊢
    unfold fromStr at h
    cases hsections : sections json with
    | none =>
      rw [hsections] at h
      cases h
    | some parts =>
      rw [hsections] at h
      cases h
      exact ⟨_, rfl, fun token => mem_getVocab⟩

theorem factoryView_documented (enableSentencePiece : Bool) :
    (factoryView enableSentencePiece).Documented where
  size_eq _ := rfl
  fromStr_tokens := jsonTokens_of_load
  bpeNew_tokens := (bpeView_documented false).vocab_eq
  accepted := nofun
  rejected _ := ⟨nofun, rfl⟩

theorem factoryView_accepts (enableSentencePiece : Bool) :
    (factoryView enableSentencePiece).Accepts where
  fromStr := by
    intro json tokens h
    change jsonTokens json = some tokens at h
    show ∃ t, loadJson json = .ok t
    unfold jsonTokens at h
    unfold loadJson
    by_cases hempty : json = emptyJson
    · exact ⟨_, if_pos hempty⟩
    · rw [if_neg hempty] at h ⊢
      obtain ⟨parts, hsections, -⟩ := Option.map_eq_some_iff.mp h
      rw [fromStr, hsections]
      exact ⟨_, rfl⟩
  setEncodeSpecialTokens _ _ := ⟨_, rfl⟩
  withAddedVocabulary _ _ := ⟨_, rfl⟩

/-- The blobs of a vocabulary without merges. -/
theorem returns_vocab {enableSentencePiece : Bool} {text : String} {ids : TokenIds}
    (h : ReadsTokenIds factoryCrates text ids) :
    Factories.Returns (build enableSentencePiece)
      (.byteLevelBPE (strBytes text) (strBytes "") (strBytes ""))
      (some (.huggingFace ⟨some ⟨0, TokenizerWrapper.bpeWrapper (overlay ids [])⟩, false⟩)) :=
  .byteLevelBPE (HFTokenizer.madeFromBPE_of_reads (reads_vocab h .nil) rfl)

theorem returns_ab (enableSentencePiece : Bool) :
    Factories.Returns (build enableSentencePiece) (.rwkvWorld abContent)
      (some (.rwkvWorld RWKVWorldTokenizer.abTokenizer)) :=
  .rwkvWorld rfl RWKVWorldTokenizer.abTokenizer_loaded

end SampleLibrary

namespace Factories

open SampleLibrary

/-! ## The factories -/

section Results
variable {view : View b} {model : Model} {result : Option (Tokenizer b.crates b.lib)}

/-- Only the disabled SentencePiece factory returns a null pointer. -/
theorem result_eq_none_iff (h : Returns b model result) :
    result = none ↔ (∃ modelBlob, model = .sentencePiece modelBlob) ∧
      b.enableSentencePiece = false := by
  cases h with
  | json h => exact iff_of_false nofun nofun
  | byteLevelBPE h => exact iff_of_false nofun nofun
  | sentencePiece modelBlob =>
    rw [Option.map_eq_none_iff, fromBlobSentencePiece]
    cases b.enableSentencePiece with
    | true => exact iff_of_false nofun nofun
    | false => exact iff_of_true rfl ⟨⟨modelBlob, rfl⟩, rfl⟩
  | rwkvWorld hmap h => exact iff_of_false nofun nofun

/-- A model that names a token has been loaded with success. -/
theorem loadReported_of_namesToken (hdoc : view.Documented) (h : Returns b model result)
    (htoken : NamesToken view model) : LoadReported b model := by
  by_cases hmodel : ∃ modelBlob, model = .sentencePiece modelBlob
  · obtain ⟨modelBlob, rfl⟩ := hmodel
    obtain ⟨pieces, hpieces, -⟩ := htoken
    exact (hdoc.accepted hpieces).1
  · push Not at hmodel
    exact loadReported_of_returns h hmodel

theorem usable_of_namesToken (hdoc : view.Documented) (h : Returns b model result)
    {t : Tokenizer b.crates b.lib} (ht : result = some t) (htoken : NamesToken view model) :
    Usable view model t := by
  have hhas := (hasToken_iff hdoc h ht).mpr htoken
  refine ⟨loadReported_of_namesToken hdoc h htoken, hhas, fun t' hlater => ?_⟩
  exact (checksHold_of_hasToken hdoc (ht ▸ h) hhas).later hlater

/-- **What the factories return.**  The pointer is null exactly for
`FromBlobSentencePiece` of a build without SentencePiece; every other backend has
reported success; and for a model that names a token the object can be used. -/
theorem factories_usable (hdoc : view.Documented) (h : Returns b model result) :
    (result = none ↔ (∃ modelBlob, model = .sentencePiece modelBlob) ∧
        b.enableSentencePiece = false) ∧
      ((∀ modelBlob, model ≠ .sentencePiece modelBlob) → LoadReported b model) ∧
      (NamesToken view model → ∀ t, result = some t → Usable view model t) :=
  ⟨result_eq_none_iff h, loadReported_of_returns h,
    fun htoken _ ht => usable_of_namesToken hdoc h ht htoken⟩

end Results

/-- The blobs of `{"a": 0, "b": 1}` and the msgpack map `{0: "a", 1: "b"}` give usable
objects. -/
theorem factories_usable_ab :
    (∃ t, Usable (factoryView true) (.byteLevelBPE (strBytes "\x7b\"a\":0,\"b\":1\x7d")
        (strBytes "") (strBytes "")) t) ∧
      Usable (factoryView false) (.rwkvWorld abContent)
        (.rwkvWorld RWKVWorldTokenizer.abTokenizer) := by
  have hids : ReadsTokenIds factoryCrates "\x7b\"a\":0,\"b\":1\x7d" [⟨"a", 0⟩, ⟨"b", 1⟩] :=
    ⟨_, _, rfl, rfl, .cons ⟨rfl, 0, rfl, rfl⟩ (.cons ⟨rfl, 1, rfl, rfl⟩ .nil)⟩
  have hmap : NamesToken (factoryView false) (.rwkvWorld abContent) := ⟨_, rfl, by decide⟩
  refine ⟨⟨_, (factories_usable (factoryView_documented true) (returns_vocab hids)).2.2
    ⟨_, _, _, reads_vocab hids .nil, List.cons_ne_nil _ _⟩ _ rfl⟩, ?_⟩
  exact (factories_usable (factoryView_documented false) (returns_ab false)).2.2 hmap _ rfl

/-- Unusable results: the null pointer of a build without SentencePiece; the object of a
blob that SentencePiece rejects; and the objects of a JSON text, of BPE blobs and of a
msgpack map without tokens. -/
theorem factories_unusable :
    Returns (build false) (.sentencePiece (strBytes "not a model")) none ∧
    (∃ t, Returns (build true) (.sentencePiece (strBytes "not a model")) (some t) ∧
      ¬ LoadReported (build true) (.sentencePiece (strBytes "not a model")) ∧ ¬ ChecksHold t) ∧
    (∃ t, Returns (build true) (.json (strBytes emptyJson)) (some t) ∧ ¬ ChecksHold t) ∧
    (∃ t, Returns (build true) (.byteLevelBPE (strBytes "\x7b\x7d") (strBytes "") (strBytes ""))
      (some t) ∧ ¬ ChecksHold t) ∧
    ∃ t, Returns (build true) (.rwkvWorld [0x80]) (some t) ∧ ¬ ChecksHold t := by
  have hids : ReadsTokenIds factoryCrates "\x7b\x7d" [] := ⟨_, _, rfl, rfl, .nil⟩
  have hload : factoryCrates.fromStr = loadJson := rfl
  have hfromStr := (congrFun hload emptyJson).trans loadJson_empty
  have hjson := (TokenizerWrapper.fromStr_eq_ok _).mpr ⟨_, _, _, hfromStr, rfl, rfl, rfl⟩
  have hmap : RWKVWorldTokenizer.LoadedFrom .signed ∅ _ := ⟨∅, rfl, invertIdx2Word ∅, rfl, rfl⟩
  refine ⟨.sentencePiece _, ⟨_, .sentencePiece _, nofun, ?_⟩,
    ⟨_, .json (HFTokenizer.madeFromJSON_of_fromStr (fromUtf8_strBytes _) hjson), ?_⟩,
    ⟨_, returns_vocab hids, ?_⟩, ⟨_, .rwkvWorld rfl hmap, ?_⟩⟩
  · show ¬ (0 : Int32) < 0
    decide
  · exact Nat.lt_irrefl 0
  · exact Nat.lt_irrefl 0
  · rintro ⟨⟨size, hsize⟩, -⟩
    cases hsize

/-! ### Exactly which models matter -/

section Exact
variable {view : View b} {model : Model} {result : Option (Tokenizer b.crates b.lib)}

/-- The model is none of those that give an unusable object: a JSON text without tokens,
two BPE blobs without tokens and no merges, a blob that SentencePiece rejects or finds no
piece in, or any blob in a build without it, an empty msgpack map. -/
def Fit (view : View b) : Model → Prop
  | .json json => ∀ text, fromUtf8 json = some text → view.jsonTokens text ≠ some []
  | .byteLevelBPE vocab merges addedTokens => ¬ Reads b.crates vocab merges addedTokens [] [] []
  | .sentencePiece modelBlob => b.enableSentencePiece = true ∧
      ∃ pieces, view.pieces modelBlob = some pieces ∧ pieces ≠ []
  | .rwkvWorld content => b.unpack content ≠ .ok ∅

theorem exists_returns_json (haccepts : view.Accepts) {json : Bytes} {text : String}
    {tokens : List String} (htext : fromUtf8 json = some text)
    (htokens : view.jsonTokens text = some tokens) :
    ∃ t, Returns b (.json json) (some t) := by
  obtain ⟨tokenizer, hfromStr⟩ := haccepts.fromStr htokens
  obtain ⟨special, hspecial⟩ := haccepts.setEncodeSpecialTokens tokenizer true
  obtain ⟨added, hadded⟩ :=
    haccepts.withAddedVocabulary tokenizer b.crates.addedVocabularyNew
  exact ⟨_, .json (HFTokenizer.madeFromJSON_of_fromStr htext
    ((TokenizerWrapper.fromStr_eq_ok _).mpr ⟨_, _, _, hfromStr, hspecial, hadded, rfl⟩))⟩

/-- A fit model that loads names a token. -/
theorem namesToken_of_fit (hdoc : view.Documented) (hchecks : b.crates.ChecksMerges)
    (h : Returns b model result) (hfit : Fit view model) : NamesToken view model := by
  cases h with
  | json h =>
    obtain ⟨text, box, tokens, htext, -, htokens, -⟩ := tokens_of_madeFromJSON hdoc h
    refine ⟨text, tokens, htext, htokens, ?_⟩
    rintro rfl
    exact hfit text htext htokens
  | byteLevelBPE h =>
    obtain ⟨ids, added, pairs, hreads⟩ := h.reads
    refine ⟨ids, added, pairs, hreads, fun hnil => hfit ?_⟩
    obtain ⟨rfl, rfl⟩ := List.append_eq_nil_iff.mp hnil
    -- merges need tokens, so there are none
    obtain ⟨addr, bpe, hbpe, -⟩ := h.model hreads
    have hknown := (hchecks _ _).mp ⟨bpe, hbpe⟩
    cases pairs with
    | nil => exact hreads
    | cons pair pairs => cases hknown pair List.mem_cons_self pair.1 List.mem_cons_self
  | sentencePiece modelBlob => exact hfit.2
  | rwkvWorld hmap h => exact ⟨_, hmap, fun hempty => hfit (hempty ▸ hmap)⟩

/-- **Exactly for the fit models** every pointer that a factory returns is a usable
object. -/
theorem usable_iff (hdoc : view.Documented) (haccepts : view.Accepts)
    (hchecks : b.crates.ChecksMerges) (model : Model) :
    (∀ result, Returns b model result → ∃ t, result = some t ∧ Usable view model t) ↔
      Fit view model := by
  constructor
  · intro husable
    cases model with
    | json json =>
      intro text htext htokens
      obtain ⟨t, h⟩ := exists_returns_json haccepts htext htokens
      obtain ⟨_, ⟨⟩, ⟨-, htoken, -⟩⟩ := husable _ h
      obtain ⟨text', tokens, htext', htokens', hne⟩ := (hasToken_iff hdoc h rfl).mp htoken
      obtain rfl := Option.some.inj (htext.symm.trans htext')
      exact hne (Option.some.inj (htokens'.symm.trans htokens))
    | byteLevelBPE vocab merges addedTokens =>
      intro hreads
      obtain ⟨bpe, hbpe⟩ := (hchecks (overlay [] []) []).mpr fun _ hmem =>
        absurd hmem List.not_mem_nil
      have hmade := HFTokenizer.madeFromBPE_of_reads hreads hbpe
      obtain ⟨_, ⟨⟩, ⟨-, htoken, -⟩⟩ := husable _ (.byteLevelBPE hmade)
      exact (hasToken_of_reads hdoc hmade hreads).mp htoken rfl
    | sentencePiece modelBlob =>
      have h : Returns b (.sentencePiece modelBlob) _ := .sentencePiece modelBlob
      obtain ⟨t, ht, ⟨-, htoken, -⟩⟩ := husable _ h
      refine ⟨Bool.of_not_eq_false fun hdisabled => ?_, (hasToken_iff hdoc h ht).mp htoken⟩
      rw [(result_eq_none_iff h).mpr ⟨⟨modelBlob, rfl⟩, hdisabled⟩] at ht
      cases ht
    | rwkvWorld content =>
      intro hempty
      obtain ⟨t, hload⟩ := RWKVWorldTokenizer.exists_load b.cs ∅
      have h : Returns b (.rwkvWorld content) _ := .rwkvWorld hempty hload
      obtain ⟨_, ⟨⟩, ⟨-, htoken, -⟩⟩ := husable _ h
      obtain ⟨m, hmap, hne⟩ := (hasToken_iff hdoc h rfl).mp htoken
      exact hne (Except.ok.inj (hmap.symm.trans hempty))
  · intro hfit result h
    cases result with
    | some t => exact ⟨t, rfl, usable_of_namesToken hdoc h rfl
        (namesToken_of_fit hdoc hchecks h hfit)⟩
    | none =>
      obtain ⟨⟨modelBlob, rfl⟩, hdisabled⟩ := (result_eq_none_iff h).mp rfl
      exact absurd (hfit.1.symm.trans hdisabled) Bool.noConfusion

end Exact

/-- With or without SentencePiece, the map `{0: "a", 1: "b"}` is fit and the empty one is
not. -/
example (enableSentencePiece : Bool) :
    (∀ result, Returns (build enableSentencePiece) (.rwkvWorld abContent) result →
      ∃ t, result = some t ∧
        Usable (factoryView enableSentencePiece) (.rwkvWorld abContent) t) ∧
    ¬ ∀ result, Returns (build enableSentencePiece) (.rwkvWorld [0x80]) result →
      ∃ t, result = some t ∧ Usable (factoryView enableSentencePiece) (.rwkvWorld [0x80]) t := by
  have hiff := usable_iff (factoryView_documented enableSentencePiece)
    (factoryView_accepts enableSentencePiece) bpeCrates_checksMerges
  rw [hiff, hiff]
  refine ⟨fun h => ?_, fun h => h rfl⟩
  have hmap : RWKVWorldTokenizer.abIdx2Word.toFinmap = ∅ := Except.ok.inj h
  revert hmap
  decide

end Factories

end TokenizersCpp
