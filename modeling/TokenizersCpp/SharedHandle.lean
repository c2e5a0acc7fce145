import TokenizersCpp.Dispatch
import TokenizersCpp.Interleaving
import TokenizersCpp.SampleLibrary

/-!
# Clients of one shared handle

Any number of clients call one Hugging Face tokenizer.  A client inside a call
steps from one C function to the next — `tokenizers_encode`,
`tokenizers_encode_batch`, `tokenizers_decode`, `tokenizers_get_decode_str`,
`tokenizers_id_to_token`, `tokenizers_token_to_id`, with the arguments that
`HFTokenizer` passes — and through what its own code does between them: the
validation of the options, the copy out of a scratch string, the conversion and
the release of the ids.  All of this interleaves, except that at most one client
is inside `Decode` and at most one inside `IdToToken`.

Nothing but the two scratch strings of the wrapper ever changes, and only the
client inside the section of a scratch string assigns it (`advance_spec`).  So
every call is answered as on a tokenizer that nobody else uses
(`isolated`), and a client inside a call can always go on
(`advance_isSome_iff`).
-/

namespace TokenizersCpp

namespace SharedHandle

open Interleaving

/-! ## Calls and answers -/

/-- The scratch strings of a wrapper. -/
inductive Scratch
  | decodeStr
  | idToTokenResult
deriving DecidableEq, Repr

/-- The calls of a client.  The two `Impl` entries hand any flags to Rust, also
those that the validation in `Encode` and `EncodeBatch` rejects. -/
inductive Call
  | encode (text : Bytes) (options : EncodeOptions)
  | encodeBatch (texts : List Bytes) (options : EncodeOptions)
  | encodeImpl (text : Bytes) (options : EncodeOptions)
  | encodeBatchImpl (texts : List Bytes) (options : EncodeOptions)
  | decode (ids : List Int32) (skipSpecialTokens : Bool)
  | idToToken (id : Int32)
  | tokenToId (token : Bytes)
deriving DecidableEq

/-- The scratch string that a call uses. -/
def Call.scratch : Call → Option Scratch
  | .decode _ _ => some .decodeStr
  | .idToToken _ => some .idToTokenResult
  | _ => none

/-- What a call returns or throws; a text read from a freed buffer is `none`. -/
inductive Answer
  | ids (result : Except CppException (List Int32))
  | batch (result : Except CppException (List (List Int32)))
  | text (result : Option Bytes)
  | id (result : Int32)

section Alone
variable {crates : Crates} (lib : SentencePieceLibrary) (cs : CharSign)

/-- The answer of a call on a tokenizer that nobody else uses. -/
def alone (t : HFTokenizer crates) (call : Call) (σ : Ledger) : Answer :=
  let tokenizer : Tokenizer crates lib := .huggingFace t
  match call with
  | .encode text options => .ids (tokenizer.encode cs text options σ).1
  | .encodeBatch texts options => .batch (tokenizer.encodeBatch cs texts options σ).1
  | .encodeImpl text options => .ids (t.encodeImpl text options σ).1
  | .encodeBatchImpl texts options => .batch (t.encodeBatchImpl texts options σ).1
  | .decode ids skipSpecialTokens => .text (t.decode ids skipSpecialTokens).1
  | .idToToken id => .text (t.idToToken id).1
  | .tokenToId token => .id (t.tokenToId token)

end Alone

/-! ## Steps -/

/-- Where a client is: outside, just inside a call, in front of
`tokenizers_encode` or its batch sibling, behind it with the status and the
slots, behind `tokenizers_decode`, or with a view of a scratch string. -/
inductive Phase
  | idle
  | started (call : Call)
  | accepted (call : Call) (text : Bytes) (options : EncodeOptions)
  | encoded (call : Call) (status : TokenizerStatus) (result : TokenizerEncodeResult)
      (error : TokenizerErrorMessage)
  | acceptedBatch (call : Call) (texts : List Bytes) (options : EncodeOptions)
  | encodedBatch (call : Call) (status : TokenizerStatus) (results : List TokenizerEncodeResult)
      (error : TokenizerErrorMessage)
  | decoded (call : Call)
  | viewing (call : Call) (scratch : Scratch) (data len : Nat)

/-- The call that a client is inside of. -/
def Phase.call : Phase → Option Call
  | .idle => none
  | .started call => some call
  | .accepted call _ _ => some call
  | .encoded call _ _ _ => some call
  | .acceptedBatch call _ _ => some call
  | .encodedBatch call _ _ _ => some call
  | .decoded call => some call
  | .viewing call _ _ _ => some call

/-- The client is inside a call that uses the scratch string. -/
def Phase.Inside (scratch : Scratch) (phase : Phase) : Prop :=
  phase.call.bind Call.scratch = some scratch

/-- What the clients share: the C++ object and the ledger of Rust allocations. -/
structure Shared (crates : Crates) where
  tokenizer : HFTokenizer crates
  ledger : Ledger

/-- A step ends inside the call or with its answer. -/
inductive Progress
  | goes (phase : Phase)
  | answers (answer : Answer)

section Steps
variable {crates : Crates}

/-- The first step of a call. -/
def start (g : Shared crates) (call : Call) : Shared crates × Progress :=
  let t := g.tokenizer
  match call with
  | .encode text options =>
      match validateEncodeOptions options t.supportsEncodeFlags with
      | .error e => (g, .answers (.ids (.error e)))
      | .ok () => (g, .goes (.accepted call text options))
  | .encodeBatch texts options =>
      match validateEncodeOptions options t.supportsEncodeFlags with
      | .error e => (g, .answers (.batch (.error e)))
      | .ok () => (g, .goes (.acceptedBatch call texts options))
  | .encodeImpl text options => (g, .goes (.accepted call text options))
  | .encodeBatchImpl texts options => (g, .goes (.acceptedBatch call texts options))
  | .decode ids skipSpecialTokens =>
      let handle := tokenizersDecode t.handle (some (ids.map Int32.toUInt32)) ids.length
        (HFTokenizer.intOfBool skipSpecialTokens)
      ({ g with tokenizer := { t with handle } }, .goes (.decoded call))
  | .idToToken id =>
      let (handle, data, len) := tokenizersIdToToken t.handle id.toUInt32 (some 0) (some 0)
      ({ g with tokenizer := { t with handle } },
        .goes (.viewing call .idToTokenResult (data.getD 0) (len.getD 0)))
  | .tokenToId token =>
      let id := tokenizersTokenToId t.handle (some token) token.length (some 0)
      (g, .answers (.id (id.getD 0)))

/-- The field of the scratch string. -/
def Scratch.of : Scratch → TokenizerWrapper crates → ScratchString
  | .decodeStr, w => w.decodeStr
  | .idToTokenResult, w => w.idToTokenResult

/-- The next step of a client; a client outside a call has none. -/
def advance (g : Shared crates) : Phase → Option (Shared crates × Progress)
  | .idle => none
  | .started call => some (start g call)
  | .accepted call text options =>
      let done := tokenizersEncode g.tokenizer.handle (some text) text.length
        (HFTokenizer.intOfBool options.addSpecialTokens) options.flags.bits (some .null)
        (some .null) g.ledger
      some ({ g with ledger := done.ledger },
        .goes (.encoded call done.status (done.slots.getD .null) (done.error.getD .null)))
  | .encoded _ status result error =>
      let outcome := do
        checkStatus status error
        convertResult result
      let (_, σ) := tokenizersFreeErrorMessage (some error) g.ledger
      let (_, σ) := tokenizersFreeEncodeResults (some [result]) 1 σ
      some ({ g with ledger := σ }, .answers (.ids outcome))
  | .acceptedBatch call texts options =>
      if texts.isEmpty then
        some (g, .answers (.batch (.ok [])))
      else
        let done := tokenizersEncodeBatch g.tokenizer.handle (some (texts.map some))
          (some (texts.map List.length)) texts.length
          (HFTokenizer.intOfBool options.addSpecialTokens) options.flags.bits
          (some (List.replicate texts.length .null)) (some .null) g.ledger
        some ({ g with ledger := done.ledger },
          .goes (.encodedBatch call done.status (done.slots.getD []) (done.error.getD .null)))
  | .encodedBatch _ status results error =>
      let outcome := do
        checkStatus status error
        results.mapM convertResult
      let (_, σ) := tokenizersFreeErrorMessage (some error) g.ledger
      let (_, σ) := tokenizersFreeEncodeResults (some results) results.length σ
      some ({ g with ledger := σ }, .answers (.batch outcome))
  | .decoded call =>
      let (data, len) := tokenizersGetDecodeStr g.tokenizer.handle (some 0) (some 0)
      some (g, .goes (.viewing call .decodeStr (data.getD 0) (len.getD 0)))
  | .viewing _ scratch data len =>
      some (g, .answers (.text
        (g.tokenizer.handle.bind fun box => (scratch.of box.value).read data len)))

/-- A call that a client has finished. -/
structure Event (Client : Type) where
  client : Client
  call : Call
  answer : Answer

variable {Client : Type}

/-- The steps of client `c`.  It begins a call that uses a scratch string only
while no client is inside such a call. -/
inductive Step (c : Client) (s : Config Client (Shared crates) Phase) :
    Shared crates → Phase → Option (Event Client) → Prop
  | begins (call : Call) (hidle : s.locals c = .idle)
      (hfree : ∀ scratch, call.scratch = some scratch → ∀ d, ¬ (s.locals d).Inside scratch) :
      Step c s s.shared (.started call) none
  | goes {g : Shared crates} {phase : Phase}
      (h : advance s.shared (s.locals c) = some (g, .goes phase)) : Step c s g phase none
  | answers {g : Shared crates} {call : Call} {answer : Answer}
      (hcall : (s.locals c).call = some call)
      (h : advance s.shared (s.locals c) = some (g, .answers answer)) :
      Step c s g .idle (some ⟨c, call, answer⟩)

/-- The clients of the tokenizer `t`. -/
def system (t : HFTokenizer crates) :
    System Client (Shared crates) Phase (Event Client) where
  start g := g.tokenizer = t
  idle := .idle
  step := Step

end Steps

end SharedHandle

end TokenizersCpp
