import TokenizersCpp.HuggingFace
import TokenizersCpp.RwkvGreedy
import TokenizersCpp.SentencePiece

/-!
# Validation and dispatch

`tokenizer.cc`: the public `Encode` and `EncodeBatch` check the options and then
enter the backend.  A backend without a batch implementation of its own gets the
default one, a loop over its `EncodeImpl`.

Calls of a backend may move the Rust ledger, but what they return does not
depend on it: `encode_fst` and `encodeBatch_fst` state the result of a call as
validation followed by an outcome of the backend.
-/

namespace TokenizersCpp

open Traversal

/-- `Tokenizer`, by its concrete class. -/
inductive Tokenizer (crates : Crates) (lib : SentencePieceLibrary)
  | huggingFace (t : HFTokenizer crates)
  | sentencePiece (t : SentencePieceTokenizer lib)
  | rwkvWorld (t : RWKVWorldTokenizer)

namespace Tokenizer

variable {crates : Crates} {lib : SentencePieceLibrary} (cs : CharSign)

/-- `SupportsEncodeFlags()`; the default is `false`. -/
def supportsEncodeFlags : Tokenizer crates lib → Bool
  | huggingFace t => t.supportsEncodeFlags
  | sentencePiece _ => false
  | rwkvWorld _ => false

/-- The virtual `EncodeImpl(text, options)`. -/
def encodeImpl (t : Tokenizer crates lib) (text : Bytes) (options : EncodeOptions) :
    Cpp (List Int32) := fun σ =>
  match t with
  | huggingFace t => t.encodeImpl text options σ
  | sentencePiece t => (t.encodeImpl text options, σ)
  | rwkvWorld t => (t.encodeImpl cs text options, σ)

/-- The loop of the default `EncodeBatchImpl`, with the lists pushed so far. -/
def encodeBatchLoop (encodeImpl : Bytes → Cpp (List Int32)) (result : List (List Int32)) :
    List Bytes → Cpp (List (List Int32))
  | [] => fun σ => (.ok result, σ)
  | text :: texts => fun σ =>
      match encodeImpl text σ with
      | (.error e, σ) => (.error e, σ)
      | (.ok ids, σ) => encodeBatchLoop encodeImpl (result ++ [ids]) texts σ

/-- The virtual `EncodeBatchImpl(texts, options)`. -/
def encodeBatchImpl (t : Tokenizer crates lib) (texts : List Bytes) (options : EncodeOptions) :
    Cpp (List (List Int32)) :=
  match t with
  | huggingFace t => t.encodeBatchImpl texts options
  | t => encodeBatchLoop (fun text => t.encodeImpl cs text options) [] texts

/-- `Encode(text, options)`. -/
def encode (t : Tokenizer crates lib) (text : Bytes) (options : EncodeOptions) :
    Cpp (List Int32) := fun σ =>
  match validateEncodeOptions options t.supportsEncodeFlags with
  | .error e => (.error e, σ)
  | .ok () => t.encodeImpl cs text options σ

/-- `EncodeBatch(texts, options)`. -/
def encodeBatch (t : Tokenizer crates lib) (texts : List Bytes) (options : EncodeOptions) :
    Cpp (List (List Int32)) := fun σ =>
  match validateEncodeOptions options t.supportsEncodeFlags with
  | .error e => (.error e, σ)
  | .ok () => t.encodeBatchImpl cs texts options σ

/-- A tokenizer that one of the factories returned.  A loaded RWKV model is a map
from ids to words. -/
inductive MadeByFactory : Tokenizer crates lib → Prop
  | json {json : Bytes} {t : HFTokenizer crates} (h : HFTokenizer.MadeFromJSON json t) :
      MadeByFactory (huggingFace t)
  | byteLevelBPE {vocab merges addedTokens : Bytes} {t : HFTokenizer crates}
      (h : HFTokenizer.MadeFromBPE vocab merges addedTokens t) : MadeByFactory (huggingFace t)
  | sentencePiece (modelBlob : Bytes) :
      MadeByFactory (sentencePiece (.construct lib modelBlob))
  | rwkvWorld {m : Finmap fun _ : Int32 => Bytes} {t : RWKVWorldTokenizer}
      (h : RWKVWorldTokenizer.LoadedFrom cs m t) : MadeByFactory (rwkvWorld t)

/-! ## What a call returns -/

/-- What the backend's `EncodeImpl` returns. -/
def encodeOutcome (t : Tokenizer crates lib) (text : Bytes) (options : EncodeOptions) :
    Except CppException (List Int32) :=
  match t with
  | huggingFace t => t.encodeOutcome text options
  | sentencePiece t => t.encodeImpl text options
  | rwkvWorld t => t.encodeImpl cs text options

/-- What the backend's `EncodeBatchImpl` returns. -/
def encodeBatchOutcome (t : Tokenizer crates lib) (texts : List Bytes) (options : EncodeOptions) :
    Except CppException (List (List Int32)) :=
  match t with
  | huggingFace t => t.encodeBatchOutcome texts options
  | t => texts.mapM fun text => t.encodeOutcome cs text options

theorem encodeImpl_fst (t : Tokenizer crates lib) (text : Bytes) (options : EncodeOptions)
    (σ : Ledger) : (t.encodeImpl cs text options σ).1 = t.encodeOutcome cs text options := by
  cases t with
  | huggingFace t => exact t.encodeImpl_fst text options σ
  | sentencePiece t => rfl
  | rwkvWorld t => rfl

/-- The default batch loop returns what the traversal of its texts returns. -/
theorem encodeBatchLoop_fst {encodeImpl : Bytes → Cpp (List Int32)}
    {outcome : Bytes → Except CppException (List Int32)}
    (h : ∀ text σ, (encodeImpl text σ).1 = outcome text) (result : List (List Int32))
    (texts : List Bytes) (σ : Ledger) :
    (encodeBatchLoop encodeImpl result texts σ).1 =
      (texts.mapM outcome).map (result ++ ·) := by
  -- the lists pushed so far and the ledger vary along the loop
  induction texts generalizing result σ with
  | nil =>
    show Except.ok result = Except.ok (result ++ [])
    rw [List.append_nil]
  | cons text texts ih =>
    rcases hstep : encodeImpl text σ with ⟨end', σ'⟩
    have hfst : outcome text = end' := by rw [← h text σ, hstep]
    cases end' with
    | error e =>
      rw [cons_error hfst]
      simp only [encodeBatchLoop, hstep]
      rfl
    | ok ids =>
      rw [cons_ok hfst]
      simp only [encodeBatchLoop, hstep, ih]
      cases texts.mapM outcome with
      | error e => rfl
      | ok out =>
        show Except.ok (result ++ [ids] ++ out) = Except.ok (result ++ ids :: out)
        rw [List.append_assoc, List.singleton_append]

theorem encodeBatchImpl_fst (haligned : crates.BatchAligned) (t : Tokenizer crates lib)
    (texts : List Bytes) (options : EncodeOptions) (σ : Ledger) :
    (t.encodeBatchImpl cs texts options σ).1 = t.encodeBatchOutcome cs texts options := by
  have hloop : ∀ t : Tokenizer crates lib,
      (encodeBatchLoop (fun text => t.encodeImpl cs text options) [] texts σ).1 =
        texts.mapM fun text => t.encodeOutcome cs text options := by
    intro t
    rw [encodeBatchLoop_fst fun text σ => t.encodeImpl_fst cs text options σ]
    cases texts.mapM fun text => t.encodeOutcome cs text options <;> rfl
  cases t with
  | huggingFace t => exact t.encodeBatchImpl_fst haligned texts options σ
  | sentencePiece t => exact hloop (sentencePiece t)
  | rwkvWorld t => exact hloop (rwkvWorld t)

/-- **`Encode` returns what validation and then the backend say.** -/
theorem encode_fst (t : Tokenizer crates lib) (text : Bytes) (options : EncodeOptions)
    (σ : Ledger) : (t.encode cs text options σ).1 =
      (validateEncodeOptions options t.supportsEncodeFlags >>= fun _ =>
        t.encodeOutcome cs text options) := by
  rw [encode]
  cases validateEncodeOptions options t.supportsEncodeFlags with
  | error e => rfl
  | ok u => exact t.encodeImpl_fst cs text options σ

/-- **`EncodeBatch` returns what validation and then the backend say.** -/
theorem encodeBatch_fst (haligned : crates.BatchAligned) (t : Tokenizer crates lib)
    (texts : List Bytes) (options : EncodeOptions) (σ : Ledger) :
    (t.encodeBatch cs texts options σ).1 =
      (validateEncodeOptions options t.supportsEncodeFlags >>= fun _ =>
        t.encodeBatchOutcome cs texts options) := by
  rw [encodeBatch]
  cases validateEncodeOptions options t.supportsEncodeFlags with
  | error e => rfl
  | ok u => exact t.encodeBatchImpl_fst cs haligned texts options σ

end Tokenizer

end TokenizersCpp
