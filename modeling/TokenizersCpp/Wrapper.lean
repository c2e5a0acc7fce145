import TokenizersCpp.InsertionLoop
import TokenizersCpp.RustFfi
import TokenizersCpp.Traversal

/-!
# The tokenizer wrapper

`TokenizerWrapper` of `rust/src/lib.rs`: one Hugging Face tokenizer, the two
policy-specific views of it that a JSON load prepares, and the scratch strings
of the lookup calls.  The crates it calls are a parameter (`Crates`): a call
into them returns, fails with an error or panics, and nothing else is assumed
here.
-/

namespace TokenizersCpp

open InsertionLoop Traversal

/-- How a call into a crate ends without returning: an error value, given by its
display text, or a panic. -/
inductive CrateAbort
  | error (text : String)
  | panic (payload : PanicPayload)
deriving DecidableEq, Repr

abbrev CrateCall (α : Type) := Except CrateAbort α

/-- `result.map_err(f)?`: the error value is wrapped, a panic goes through. -/
def CrateCall.mapErr {α : Type} (f : String → FfiError) : CrateCall α → Rust α
  | .ok a => .ok a
  | .error (.error text) => .error (.error (f text))
  | .error (.panic payload) => .error (.panic payload)

theorem CrateCall.mapErr_eq_ok {α : Type} {f : String → FfiError} {call : CrateCall α} {a : α} :
    call.mapErr f = .ok a ↔ call = .ok a := by
  rcases call with (text | payload) | b
  · exact ⟨nofun, nofun⟩
  · exact ⟨nofun, nofun⟩
  · exact ⟨fun h => congrArg _ (Except.ok.inj h), fun h => congrArg _ (Except.ok.inj h)⟩

/-- A call that can only return or panic. -/
def unwinding {α : Type} : Except PanicPayload α → Rust α
  | .ok a => .ok a
  | .error payload => .error (.panic payload)

theorem unwinding_eq_ok {α : Type} {call : Except PanicPayload α} {a : α} :
    unwinding call = .ok a ↔ call = .ok a := by
  cases call with
  | error payload => exact ⟨nofun, nofun⟩
  | ok b => exact ⟨fun h => congrArg _ (Except.ok.inj h), fun h => congrArg _ (Except.ok.inj h)⟩

/-- `Vocab`. -/
abbrev Vocab := AList fun _ : String => UInt32

/-- `Merges`. -/
abbrev Merges := List (String × String)

/-- `ByteLevel::new(add_prefix_space, trim_offsets, use_regex)`. -/
structure ByteLevel where
  addPrefixSpace : Bool
  trimOffsets : Bool
  useRegex : Bool
deriving DecidableEq, Repr

/-- What `lib.rs` uses of the crates `tokenizers` and `serde_json`, and of the
standard library's text formatting. -/
structure Crates where
  /-- `tokenizers::Tokenizer`. -/
  Tokenizer : Type
  AddedVocabulary : Type
  BPE : Type
  /-- `Tokenizer::from_str`. -/
  fromStr : String → CrateCall Tokenizer
  setEncodeSpecialTokens : Tokenizer → Bool → Except PanicPayload Tokenizer
  addedVocabularyNew : AddedVocabulary
  withAddedVocabulary : Tokenizer → AddedVocabulary → Except PanicPayload Tokenizer
  bpeNew : Vocab → Merges → Except PanicPayload BPE
  tokenizerNew : BPE → Tokenizer
  withPreTokenizer : Tokenizer → ByteLevel → Tokenizer
  withDecoder : Tokenizer → ByteLevel → Tokenizer
  /-- `encode`, up to `get_ids` of the encoding. -/
  encode : Tokenizer → String → Bool → CrateCall (List UInt32)
  encodeBatch : Tokenizer → List String → Bool → CrateCall (List (List UInt32))
  decode : Tokenizer → List UInt32 → Bool → Except String String
  idToToken : Tokenizer → UInt32 → Option String
  tokenToId : Tokenizer → String → Option UInt32
  getVocabSize : Tokenizer → Bool → Nat
  /-- `serde_json::Value`. -/
  Value : Type
  /-- `serde_json::from_str`. -/
  jsonFromStr : String → Except String Value
  /-- The entries of a `Value::Object`, in the order of its iterator. -/
  asObject : Value → Option (List (String × Value))
  asU64 : Value → Option UInt64
  /-- `format!("{:?}", text)`. -/
  debugStr : String → String
  /-- The display text of the `Utf8Error` of a byte string. -/
  utf8Error : Bytes → String

/-- `encode_batch` returns one encoding for each text, as the crate documents. -/
def Crates.BatchAligned (crates : Crates) : Prop :=
  ∀ tokenizer texts addSpecialTokens batch,
    crates.encodeBatch tokenizer texts addSpecialTokens = .ok batch → batch.length = texts.length

/-! ## Scratch strings -/

/-- A `String` field that C reads through a raw pointer: the text, and the
buffer that holds it.  Assigning the field frees the old buffer. -/
structure ScratchString where
  buffer : Nat
  text : String
deriving DecidableEq, Repr

namespace ScratchString

/-- `String::new()`. -/
def new : ScratchString := ⟨0, ""⟩

/-- `self.field = text`. -/
def assign (s : ScratchString) (text : String) : ScratchString := ⟨s.buffer + 1, text⟩

/-- `std::string(data, len)` over a pointer into the string's buffer; reading a
freed buffer has no defined result. -/
def read (s : ScratchString) (data len : Nat) : Option Bytes :=
  if data = s.buffer then some ((strBytes s.text).take len) else none

/-- `as_mut_ptr()` and `len()`. -/
def view (s : ScratchString) : Nat × Nat := (s.buffer, (strBytes s.text).length)

/-- A view is read back as the whole text while the string is not assigned. -/
theorem read_view (s : ScratchString) :
    s.read s.view.1 s.view.2 = some (strBytes s.text) := by
  simp [read, view]

end ScratchString

/-! ## The wrapper -/

/-- `ENCODE_FLAG_IGNORE_SPECIAL_TOKENS`. -/
def encodeFlagIgnoreSpecialTokens : UInt32 := (1 : UInt32) <<< 0

/-- `ENCODE_FLAG_IGNORE_ADDED_TOKENS`. -/
def encodeFlagIgnoreAddedTokens : UInt32 := (1 : UInt32) <<< 1

/-- `ENCODE_FLAG_MASK`. -/
def encodeFlagMask : UInt32 := encodeFlagIgnoreSpecialTokens ||| encodeFlagIgnoreAddedTokens

/-- `{:x}`. -/
def lowerHex (n : UInt32) : String := String.ofList (Nat.toDigits 16 n.toNat)

/-- `EncodeVariants`. -/
structure EncodeVariants (crates : Crates) where
  ignoreSpecialTokens : crates.Tokenizer
  ignoreAddedTokens : crates.Tokenizer

/-- `TokenizerWrapper`. -/
structure TokenizerWrapper (crates : Crates) where
  tokenizer : crates.Tokenizer
  encodeVariants : Option (EncodeVariants crates)
  decodeStr : ScratchString
  idToTokenResult : ScratchString

/-- `str::split_inclusive`. -/
def splitInclusive (sep : Char) : List Char → List (List Char)
  | [] => []
  | c :: cs =>
      if c = sep then
        [c] :: splitInclusive sep cs
      else
        match splitInclusive sep cs with
        | [] => [[c]]
        | line :: lines => (c :: line) :: lines

/-- Strips a final `"\n"`, and then a final `"\r"`; a line without `"\n"` keeps
its `"\r"`. -/
def stripLineEnd (line : List Char) : List Char :=
  if line.getLast? = some '\n' then
    let line := line.dropLast
    if line.getLast? = some '\r' then line.dropLast else line
  else
    line

/-- `str::lines`. -/
def lines (text : String) : List String :=
  (splitInclusive '\n' text.toList).map fun line => String.ofList (stripLineEnd line)

namespace TokenizerWrapper

section Load
variable (crates : Crates)

/-- `TokenizerWrapper::from_str(json)`. -/
def fromStr (json : String) : Rust (TokenizerWrapper crates) := do
  let tokenizer ← (crates.fromStr json).mapErr fun error =>
    .invalidArgument s!"Failed to parse tokenizer JSON: {error}"
  let ignoreSpecialTokens ← unwinding (crates.setEncodeSpecialTokens tokenizer true)
  let ignoreAddedTokens ←
    unwinding (crates.withAddedVocabulary tokenizer crates.addedVocabularyNew)
  return {
    tokenizer
    encodeVariants := some { ignoreSpecialTokens, ignoreAddedTokens }
    decodeStr := .new
    idToTokenResult := .new }

theorem fromStr_eq_ok {json : String} {w : TokenizerWrapper crates} :
    fromStr crates json = .ok w ↔ ∃ tokenizer ignoreSpecialTokens ignoreAddedTokens,
      crates.fromStr json = .ok tokenizer ∧
        crates.setEncodeSpecialTokens tokenizer true = .ok ignoreSpecialTokens ∧
        crates.withAddedVocabulary tokenizer crates.addedVocabularyNew = .ok ignoreAddedTokens ∧
        w = ⟨tokenizer, some ⟨ignoreSpecialTokens, ignoreAddedTokens⟩, .new, .new⟩ := by
  simp only [fromStr, bind_eq_ok, CrateCall.mapErr_eq_ok, unwinding_eq_ok]
  constructor
  · rintro ⟨tokenizer, ht, special, hs, added, ha, hw⟩
    exact ⟨tokenizer, special, added, ht, hs, ha, (Except.ok.inj hw).symm⟩
  · rintro ⟨tokenizer, special, added, ht, hs, ha, rfl⟩
    exact ⟨tokenizer, ht, special, hs, added, ha, rfl⟩

/-- The loop over a JSON object of token ids; `kind` begins its messages. -/
def insertTokenIds (kind : String) : List (String × crates.Value) → Vocab → Rust Vocab
  | [], vocab => .ok vocab
  | (token, id) :: entries, vocab => do
      let shown := crates.debugStr token
      match crates.asU64 id with
      | none => .error (.error (.invalidArgument
          s!"{kind} id for token {shown} is not an unsigned integer"))
      | some id =>
          -- `u32::try_from`
          if id.toNat < 2 ^ 32 then
            insertTokenIds kind entries (vocab.insert token id.toUInt32)
          else
            .error (.error (.invalidArgument s!"{kind} id for token {shown} exceeds u32"))

/-- The vocabulary blob. -/
def parseVocab (vocab : String) : Rust Vocab := do
  let vocabJson ← (crates.jsonFromStr vocab).mapError fun error =>
    .error (.invalidArgument s!"Failed to parse BPE vocabulary JSON: {error}")
  match crates.asObject vocabJson with
  | some entries => insertTokenIds crates "Vocabulary" entries ∅
  | none => .error (.error (.invalidArgument "BPE vocabulary JSON must be an object"))

/-- The added-token blob, inserted over the vocabulary. -/
def insertAddedTokens (addedTokens : String) (vocab : Vocab) : Rust Vocab :=
  if addedTokens.isEmpty then
    .ok vocab
  else do
    let addedTokensJson ← (crates.jsonFromStr addedTokens).mapError fun error =>
      .error (.invalidArgument s!"Failed to parse added-token JSON: {error}")
    match crates.asObject addedTokensJson with
    | some entries => insertTokenIds crates "Added-token" entries vocab
    | none => .error (.error (.invalidArgument "Added-token JSON must be an object"))

/-- One line of the merges blob. -/
def parseMergeLine (debugStr : String → String) (line : String) : Rust (String × String) :=
  match line.toList.splitOn ' ' with
  | [left, right] => .ok (String.ofList left, String.ofList right)
  | _ =>
      let shown := debugStr line
      .error (.error (.invalidArgument s!"Invalid BPE merge line: {shown}"))

/-- The merges blob: every line that does not start with `#version`. -/
def parseMerges (debugStr : String → String) (merges : String) : Rust Merges :=
  ((lines merges).filter fun line => !"#version".toList.isPrefixOf line.toList).mapM
    (parseMergeLine debugStr)

/-- `TokenizerWrapper::byte_level_bpe_from_str(vocab, merges, added_tokens)`. -/
def byteLevelBpeFromStr (vocab merges addedTokens : String) : Rust (TokenizerWrapper crates) := do
  let vocab ← parseVocab crates vocab
  let vocab ← insertAddedTokens crates addedTokens vocab
  let merges ← parseMerges crates.debugStr merges
  let byteLevel : ByteLevel := ⟨false, false, false⟩
  let bpe ← unwinding (crates.bpeNew vocab merges)
  let tokenizer := crates.tokenizerNew bpe
  let tokenizer := crates.withDecoder (crates.withPreTokenizer tokenizer byteLevel) byteLevel
  return {
    tokenizer
    encodeVariants := none
    decodeStr := .new
    idToTokenResult := .new }

/-- A byte-level BPE load has no encode variants, and its tokenizer is built from
a model. -/
theorem byteLevelBpeFromStr_ok {vocab merges addedTokens : String} {w : TokenizerWrapper crates}
    (h : byteLevelBpeFromStr crates vocab merges addedTokens = .ok w) :
    w.encodeVariants = none ∧ ∃ bpe byteLevel, w.tokenizer =
      crates.withDecoder (crates.withPreTokenizer (crates.tokenizerNew bpe) byteLevel)
        byteLevel := by
  obtain ⟨vocab', -, h⟩ := bind_eq_ok.mp h
  obtain ⟨vocab'', -, h⟩ := bind_eq_ok.mp h
  obtain ⟨merges', -, h⟩ := bind_eq_ok.mp h
  obtain ⟨bpe, -, h⟩ := bind_eq_ok.mp h
  obtain rfl := Except.ok.inj h
  exact ⟨rfl, bpe, _, rfl⟩

end Load

section Encode
variable {crates : Crates}

/-- `tokenizer_for_encode(flags)`. -/
def tokenizerForEncode (w : TokenizerWrapper crates) (flags : UInt32) : Rust crates.Tokenizer :=
  if flags &&& ~~~encodeFlagMask ≠ 0 then
    let bits := lowerHex (flags &&& ~~~encodeFlagMask)
    .error (.error (.invalidArgument s!"Unknown encode flag bits: 0x{bits}"))
  else if flags = 0 then
    .ok w.tokenizer
  else
    match w.encodeVariants with
    | none => .error (.error (.unsupported
        "Added-token ignore flags require a Hugging Face JSON tokenizer"))
    | some variants =>
        -- with both bits set the wider policy wins
        if flags &&& encodeFlagIgnoreAddedTokens ≠ 0 then
          .ok variants.ignoreAddedTokens
        else
          .ok variants.ignoreSpecialTokens

section Flags
variable (w : TokenizerWrapper crates) {flags : UInt32}

/-- An unknown bit is the caller's mistake. -/
theorem tokenizerForEncode_unknown (h : flags &&& ~~~encodeFlagMask ≠ 0) : ∃ message,
    w.tokenizerForEncode flags = .error (.error (.invalidArgument message)) :=
  ⟨_, if_pos h⟩

/-- A known bit needs the encode variants. -/
theorem tokenizerForEncode_unsupported (hknown : flags &&& ~~~encodeFlagMask = 0)
    (hflags : flags ≠ 0) (h : w.encodeVariants = none) : ∃ message,
    w.tokenizerForEncode flags = .error (.error (.unsupported message)) := by
  rw [tokenizerForEncode, if_neg (not_not.mpr hknown), if_neg hflags, h]
  exact ⟨_, rfl⟩

theorem tokenizerForEncode_none : w.tokenizerForEncode 0 = .ok w.tokenizer := by
  rw [tokenizerForEncode, if_neg (by decide), if_pos rfl]

theorem tokenizerForEncode_variant {variants : EncodeVariants crates}
    (hknown : flags &&& ~~~encodeFlagMask = 0) (hflags : flags ≠ 0)
    (h : w.encodeVariants = some variants) : w.tokenizerForEncode flags =
      .ok (if flags &&& encodeFlagIgnoreAddedTokens ≠ 0 then variants.ignoreAddedTokens
        else variants.ignoreSpecialTokens) := by
  rw [tokenizerForEncode, if_neg (not_not.mpr hknown), if_neg hflags, h]
  dsimp only
  split <;> rfl

/-- The selected tokenizer is the loaded one or one of its two views. -/
theorem of_tokenizerForEncode {tokenizer : crates.Tokenizer}
    (h : w.tokenizerForEncode flags = .ok tokenizer) :
    tokenizer = w.tokenizer ∨ ∃ variants, w.encodeVariants = some variants ∧
      (tokenizer = variants.ignoreAddedTokens ∨ tokenizer = variants.ignoreSpecialTokens) := by
  by_cases hknown : flags &&& ~~~encodeFlagMask = 0
  · by_cases hflags : flags = 0
    · rw [hflags, tokenizerForEncode_none] at h
      exact Or.inl (Except.ok.inj h).symm
    · cases hvariants : w.encodeVariants with
      | none =>
        obtain ⟨message, herr⟩ := w.tokenizerForEncode_unsupported hknown hflags hvariants
        rw [herr] at h
        cases h
      | some variants =>
        rw [w.tokenizerForEncode_variant hknown hflags hvariants] at h
        refine Or.inr ⟨variants, rfl, ?_⟩
        rw [← Except.ok.inj h]
        split
        · exact Or.inl rfl
        · exact Or.inr rfl
  · obtain ⟨message, herr⟩ := w.tokenizerForEncode_unknown hknown
    rw [herr] at h
    cases h

end Flags

/-- `encode(text, add_special_tokens, flags)`. -/
def encode (w : TokenizerWrapper crates) (text : String) (addSpecialTokens : Bool)
    (flags : UInt32) : Rust (List UInt32) := do
  let tokenizer ← w.tokenizerForEncode flags
  (crates.encode tokenizer text addSpecialTokens).mapErr fun error =>
    .internal s!"Hugging Face tokenizer encode failed: {error}"

/-- `encode_batch(texts, add_special_tokens, flags)`. -/
def encodeBatch (w : TokenizerWrapper crates) (texts : List String) (addSpecialTokens : Bool)
    (flags : UInt32) : Rust (List (List UInt32)) := do
  let tokenizer ← w.tokenizerForEncode flags
  (crates.encodeBatch tokenizer texts addSpecialTokens).mapErr fun error =>
    .internal s!"Hugging Face tokenizer batch encode failed: {error}"

theorem encode_eq_ok {w : TokenizerWrapper crates} {text : String} {addSpecialTokens : Bool}
    {flags : UInt32} {ids : List UInt32} :
    w.encode text addSpecialTokens flags = .ok ids ↔
      ∃ tokenizer, w.tokenizerForEncode flags = .ok tokenizer ∧
        crates.encode tokenizer text addSpecialTokens = .ok ids := by
  rw [encode, bind_eq_ok]
  exact exists_congr fun _ => and_congr_right fun _ => CrateCall.mapErr_eq_ok

theorem encodeBatch_eq_ok {w : TokenizerWrapper crates} {texts : List String}
    {addSpecialTokens : Bool} {flags : UInt32} {batch : List (List UInt32)} :
    w.encodeBatch texts addSpecialTokens flags = .ok batch ↔
      ∃ tokenizer, w.tokenizerForEncode flags = .ok tokenizer ∧
        crates.encodeBatch tokenizer texts addSpecialTokens = .ok batch := by
  rw [encodeBatch, bind_eq_ok]
  exact exists_congr fun _ => and_congr_right fun _ => CrateCall.mapErr_eq_ok

/-- `decode(ids, skip_special_tokens)`: a failed decode leaves the empty string. -/
def decode (w : TokenizerWrapper crates) (ids : List UInt32) (skipSpecialTokens : Bool) :
    TokenizerWrapper crates :=
  let text := match crates.decode w.tokenizer ids skipSpecialTokens with
    | .ok text => text
    | .error _ => ""
  { w with decodeStr := w.decodeStr.assign text }

end Encode

end TokenizerWrapper

end TokenizersCpp
