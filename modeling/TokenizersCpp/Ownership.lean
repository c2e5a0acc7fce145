import TokenizersCpp.Dispatch
import TokenizersCpp.SampleLibrary

/-!
# Ownership across the boundary

Rust hands over result buffers, error messages and handles; the C++ owners give
them back in their destructors.  `Ledger.Holds` says that the items that are out are
exactly the given ones, and that nothing was given back twice.  Every call of the
library, whichever way it ends, gives back what it was handed, except that a factory
that succeeds keeps its handle for the new object (`holds_fromReturn`,
`holds_encodeImpl`, `holds_encodeBatchImpl`).  So after any sequence of calls the
handles of the live objects are out, and nothing else (`Run.holds`).
-/

namespace TokenizersCpp

open Traversal

/-! ## What is out -/

/-- The items that Rust handed over and that were not given back are exactly `items`;
every item that was handed over is out or was given back, and none was given back
twice. -/
structure Ledger.Holds (σ : Ledger) (items : List Nat) : Prop where
  nodup : items.Nodup
  mem_live : ∀ a, a ∈ σ.live ↔ a ∈ items
  accounted : ∀ a, a < σ.next ↔ a ∈ σ.live ∨ a ∈ σ.released
  once : σ.released.Nodup
  apart : ∀ a ∈ σ.released, a ∉ σ.live

namespace Ledger.Holds

variable {α : Type} {σ : Ledger} {items items' : List Nat}

theorem initial : Ledger.initial.Holds [] where
  nodup := List.nodup_nil
  mem_live a := by simp [Ledger.initial]
  accounted a := by simp [Ledger.initial]
  once := List.nodup_nil
  apart a h := absurd h List.not_mem_nil

theorem perm (h : σ.Holds items) (hperm : items.Perm items') : σ.Holds items' :=
  { h with
    nodup := hperm.nodup_iff.mp h.nodup
    mem_live := fun a => (h.mem_live a).trans hperm.mem_iff }

/-- A new box is out. -/
theorem handedOver (h : σ.Holds items) (value : α) :
    (intoRaw value σ).2.Holds ((intoRaw value σ).1.addr :: items) := by
  have hfresh : σ.next ∉ σ.live := fun hmem =>
    Nat.lt_irrefl _ ((h.accounted σ.next).mpr (Or.inl hmem))
  constructor
  · exact List.nodup_cons.mpr ⟨fun hmem => hfresh ((h.mem_live _).mpr hmem), h.nodup⟩
  · intro a
    rw [List.mem_cons, ← h.mem_live]
    exact Finset.mem_insert
  · intro a
    have hacc := h.accounted a
    show a < σ.next + 1 ↔ a ∈ insert σ.next σ.live ∨ a ∈ σ.released
    rw [Finset.mem_insert]
    constructor
    · intro hlt
      by_cases ha : a = σ.next
      · exact Or.inl (Or.inl ha)
      · exact (hacc.mp (by omega)).imp_left Or.inr
    · rintro ((rfl | hlive) | hreleased)
      · exact Nat.lt_succ_self _
      · exact Nat.lt_succ_of_lt (hacc.mpr (Or.inl hlive))
      · exact Nat.lt_succ_of_lt (hacc.mpr (Or.inr hreleased))
  · exact h.once
  · intro a hreleased hlive
    rcases Finset.mem_insert.mp hlive with rfl | hlive
    · exact Nat.lt_irrefl _ ((h.accounted σ.next).mpr (Or.inr hreleased))
    · exact h.apart a hreleased hlive

/-- A box that is out can be given back, and then it is not out. -/
theorem givenBack {pointer : RustBox α} (h : σ.Holds (pointer.addr :: items)) :
    (dropRaw pointer σ).Holds items := by
  obtain ⟨hnot, hnodup⟩ := List.nodup_cons.mp h.nodup
  have hlive : pointer.addr ∈ σ.live := (h.mem_live _).mpr List.mem_cons_self
  constructor
  · exact hnodup
  · intro a
    show a ∈ σ.live.erase pointer.addr ↔ a ∈ items
    rw [Finset.mem_erase, h.mem_live, List.mem_cons]
    constructor
    · rintro ⟨hne, heq | hmem⟩
      · exact absurd heq hne
      · exact hmem
    · exact fun hmem => ⟨fun heq => hnot (heq ▸ hmem), Or.inr hmem⟩
  · intro a
    show a < σ.next ↔ a ∈ σ.live.erase pointer.addr ∨ a ∈ pointer.addr :: σ.released
    rw [h.accounted, Finset.mem_erase, List.mem_cons]
    by_cases ha : a = pointer.addr
    · rw [ha]
      exact iff_of_true (Or.inl hlive) (Or.inr (Or.inl rfl))
    · simp only [ne_eq, ha, not_false_eq_true, true_and, false_or]
  · exact List.nodup_cons.mpr ⟨fun hreleased => h.apart _ hreleased hlive, h.once⟩
  · intro a hreleased hmem
    obtain ⟨hne, hmem⟩ := Finset.mem_erase.mp hmem
    rcases List.mem_cons.mp hreleased with rfl | hreleased
    · exact hne rfl
    · exact h.apart a hreleased hmem

/-- A box that is handed over and given back leaves nothing behind. -/
theorem passedThrough (h : σ.Holds items) (value : α) :
    (dropRaw (intoRaw value σ).1 (intoRaw value σ).2).Holds items :=
  (h.handedOver value).givenBack

end Ledger.Holds

/-- The item behind a nullable pointer. -/
def itemOf {α : Type} (pointer : Option (RustBox α)) : List Nat :=
  (pointer.map RustBox.addr).toList

/-- The items in an array of result slots. -/
def slotItems (results : List TokenizerEncodeResult) : List Nat :=
  results.flatMap fun result => itemOf result.tokenIds

theorem slotItems_replicate_null (n : Nat) :
    slotItems (List.replicate n TokenizerEncodeResult.null) = [] := by
  rw [slotItems, List.flatMap_eq_nil_iff]
  intro result hresult
  rw [List.eq_of_mem_replicate hresult]
  rfl

/-! ## Giving back -/

section Release
variable {crates : Crates} {σ : Ledger} {items : List Nat}

theorem holds_freeErrorMessage {error : TokenizerErrorMessage}
    (h : σ.Holds (itemOf error.data ++ items)) :
    (tokenizersFreeErrorMessage (some error) σ).2.Holds items := by
  obtain ⟨data, len⟩ := error
  cases data with
  | none => exact h
  | some box => exact h.givenBack

theorem holds_free {handle : TokenizerHandle crates} (h : σ.Holds (itemOf handle ++ items)) :
    (tokenizersFree handle σ).Holds items := by
  cases handle with
  | none => exact h
  | some box => exact h.givenBack

theorem holds_freeEncodeResultsLoop {results : List TokenizerEncodeResult}
    (h : σ.Holds (slotItems results ++ items)) :
    (freeEncodeResultsLoop results σ).2.Holds items := by
  induction results generalizing σ with
  | nil => exact h
  | cons result results ih =>
    obtain ⟨tokenIds, len⟩ := result
    cases tokenIds with
    | none => exact ih h
    | some box => exact ih h.givenBack

theorem holds_freeEncodeResults {results : List TokenizerEncodeResult} {numSeqs : Nat}
    (hnum : numSeqs = results.length) (h : σ.Holds (slotItems results ++ items)) :
    (tokenizersFreeEncodeResults (some results) numSeqs σ).2.Holds items := by
  rw [tokenizersFreeEncodeResults]
  by_cases hzero : numSeqs = 0
  · rw [if_pos hzero]
    rw [List.length_eq_zero_iff.mp (hnum.symm.trans hzero)] at h
    exact h
  · rw [if_neg hzero]
    simp only [hnum, List.take_length]
    exact holds_freeEncodeResultsLoop h

/-! ### Giving back twice -/

/-- A freed slot is null, and stays as it is. -/
theorem freeEncodeResult_freed (result : TokenizerEncodeResult) (σ σ' : Ledger) :
    freeEncodeResult (freeEncodeResult result σ).1 σ' = ((freeEncodeResult result σ).1, σ') := by
  obtain ⟨tokenIds, len⟩ := result
  cases tokenIds <;> rfl

theorem freeEncodeResultsLoop_freed (results : List TokenizerEncodeResult) (σ σ' : Ledger) :
    freeEncodeResultsLoop (freeEncodeResultsLoop results σ).1 σ' =
      ((freeEncodeResultsLoop results σ).1, σ') := by
  induction results generalizing σ with
  | nil => rfl
  | cons result results ih =>
    simp only [freeEncodeResultsLoop, freeEncodeResult_freed, ih]

theorem length_freeEncodeResultsLoop (results : List TokenizerEncodeResult) (σ : Ledger) :
    (freeEncodeResultsLoop results σ).1.length = results.length := by
  induction results generalizing σ with
  | nil => rfl
  | cons result results ih => exact congrArg Nat.succ (ih _)

/-- **Freeing an array of slots twice** is freeing it once, whatever the slots hold. -/
theorem freeEncodeResults_freed (results : Option (List TokenizerEncodeResult)) (numSeqs : Nat)
    (σ : Ledger) :
    let freed := tokenizersFreeEncodeResults results numSeqs σ
    tokenizersFreeEncodeResults freed.1 numSeqs freed.2 = freed := by
  cases results with
  | none => rfl
  | some results =>
    by_cases hzero : numSeqs = 0
    · simp only [tokenizersFreeEncodeResults, if_pos hzero]
    · have hlength := length_freeEncodeResultsLoop (results.take numSeqs) σ
      rw [List.length_take] at hlength
      have htake : (overwrite (freeEncodeResultsLoop (results.take numSeqs) σ).1 results).take
          numSeqs = (freeEncodeResultsLoop (results.take numSeqs) σ).1 := by
        by_cases hle : numSeqs ≤ results.length
        · exact take_overwrite results (by omega)
        · -- an array with fewer cells than `num_seqs` is freed as a whole
          rw [overwrite_of_length (by omega), List.take_of_length_le (by omega)]
      simp only [tokenizersFreeEncodeResults, if_neg hzero, htake, freeEncodeResultsLoop_freed]
      rw [overwrite, overwrite, List.drop_left]

/-- So is freeing an error message twice. -/
theorem freeErrorMessage_freed (error : Option TokenizerErrorMessage) (σ : Ledger) :
    let freed := tokenizersFreeErrorMessage error σ
    tokenizersFreeErrorMessage freed.1 freed.2 = freed := by
  cases error with
  | none => rfl
  | some message =>
    obtain ⟨data, len⟩ := message
    cases data <;> rfl

end Release

/-! ## Calls -/

/-- The final loop of a batch hands over the contents of its slots. -/
theorem holds_handOver {σ : Ledger} {items : List Nat} (batch : List (List UInt32))
    (h : σ.Holds items) : (handOver batch σ).2.Holds (slotItems (handOver batch σ).1 ++ items) := by
  induction batch generalizing σ items with
  | nil => exact h
  | cons ids batch ih => exact (ih (h.handedOver ids)).perm List.perm_middle

namespace HFTokenizer

section Calls
variable {crates : Crates} {σ : Ledger} {items : List Nat}

/-- **`EncodeImpl` gives back** what it was handed, on every exit. -/
theorem holds_encodeImpl (t : HFTokenizer crates) (text : Bytes) (options : EncodeOptions)
    (h : σ.Holds items) : (t.encodeImpl text options σ).2.Holds items := by
  cases hcompute : encodeInput t.handle (some text) text.length
      (intOfBool options.addSpecialTokens) options.flags.bits with
  | ok ids =>
    -- the ids, whether they could be converted or not
    have hledger : (t.encodeImpl text options σ).2 =
        dropRaw (intoRaw ids σ).1 (intoRaw ids σ).2 := by
      rw [encodeImpl, tokenizersEncode_ok hcompute]
      rfl
    rw [hledger]
    exact h.passedThrough ids
  | error abort =>
    have hledger : (t.encodeImpl text options σ).2 =
        dropRaw (intoRaw abort.message σ).1 (intoRaw abort.message σ).2 := by
      rw [encodeImpl, tokenizersEncode_abort hcompute]
      rfl
    rw [hledger]
    exact h.passedThrough abort.message

/-- **`EncodeBatchImpl` gives back** what it was handed, on every exit. -/
theorem holds_encodeBatchImpl (haligned : crates.BatchAligned) (t : HFTokenizer crates)
    (texts : List Bytes) (options : EncodeOptions) (h : σ.Holds items) :
    (t.encodeBatchImpl texts options σ).2.Holds items := by
  cases htexts : texts.isEmpty with
  | true =>
    rw [encodeBatchImpl, if_pos htexts]
    exact h
  | false =>
    have hnum := length_ne_zero_of_texts htexts
    have hcleared : overwrite (List.replicate texts.length TokenizerEncodeResult.null)
        (List.replicate texts.length .null) = List.replicate texts.length .null :=
      overwrite_of_length rfl
    rw [t.encodeBatchImpl_of_texts htexts]
    cases hcompute : encodeInputs t.handle (texts.map some) (texts.map List.length) texts.length
        (intOfBool options.addSpecialTokens) options.flags.bits with
    | ok batch =>
      have hlength : (handOver batch σ).1.length = texts.length := by
        rw [length_handOver]
        simpa using length_of_encodeInputs haligned hcompute
      rw [tokenizersEncodeBatch_ok hnum hcompute, hcleared,
        overwrite_of_length (by rw [hlength, List.length_replicate])]
      exact holds_freeEncodeResults hlength.symm (holds_handOver batch h)
    | error abort =>
      rw [tokenizersEncodeBatch_abort hnum hcompute, hcleared]
      refine holds_freeEncodeResults (List.length_replicate ..).symm ?_
      rw [Option.getD_some, slotItems_replicate_null]
      exact holds_freeErrorMessage (h.handedOver abort.message)

/-- The handle of a tokenizer that a factory returned. -/
def created : Except CppException (HFTokenizer crates) → List Nat
  | .ok t => itemOf t.handle
  | .error _ => []

/-- **A factory keeps the handle** of the tokenizer that it returns, and gives back
everything else. -/
theorem holds_fromReturn {newFails : Bool} {nullMessage outMessage : String}
    {supportsEncodeFlags : Bool} (compute : Rust (TokenizerWrapper crates)) (h : σ.Holds items) :
    let done := fromReturn newFails nullMessage supportsEncodeFlags
      (ffiCall (some .null) (writeSlot outMessage none some (some none) compute) σ)
    done.2.Holds (created done.1 ++ items) := by
  cases hcompute : compute with
  | error abort =>
    rw [fromReturn_abort rfl]
    exact h.passedThrough abort.message
  | ok wrapper =>
    rw [fromReturn_ok rfl]
    cases newFails with
    | true => exact h.passedThrough wrapper
    | false => exact h.handedOver wrapper

end Calls

end HFTokenizer

/-! ## Sequences of calls -/

namespace Ownership

/-- The ledger, and the handles of the live `HFTokenizer` objects. -/
structure World where
  ledger : Ledger
  objects : List Nat

/-- A call that moves the ledger.  An object is known by its handle alone: the wrapper
behind the handle and the behaviour of the crates are part of the call, so a call may
end in any of its ways, whatever the calls before it did. -/
inductive Call
  | fromBlobJSON (crates : Crates) (newFails : Bool) (json : Bytes)
  | fromBlobByteLevelBPE (crates : Crates) (newFails : Bool) (vocab merges addedTokens : Bytes)
  | encode (crates : Crates) (t : HFTokenizer crates) (text : Bytes) (options : EncodeOptions)
  | encodeBatch (crates : Crates) (haligned : crates.BatchAligned) (t : HFTokenizer crates)
      (texts : List Bytes) (options : EncodeOptions)
  | destroy (crates : Crates) (t : HFTokenizer crates)

/-- The object is one of the live ones. -/
def World.Has {crates : Crates} (w : World) (t : HFTokenizer crates) : Prop :=
  ∃ box, t.handle = some box ∧ box.addr ∈ w.objects

/-- A call is made on a live object. -/
def Call.Allowed (w : World) : Call → Prop
  | .fromBlobJSON _ _ _ | .fromBlobByteLevelBPE _ _ _ _ _ => True
  | .encode _ t _ _ | .encodeBatch _ _ t _ _ | .destroy _ t => w.Has t

/-- A factory made an object, or threw. -/
def World.after {crates : Crates} (w : World)
    (done : Except CppException (HFTokenizer crates) × Ledger) : World :=
  ⟨done.2, HFTokenizer.created done.1 ++ w.objects⟩

section Runs
variable (lib : SentencePieceLibrary) (cs : CharSign)

/-- The world after a call. -/
def Call.exec (w : World) : Call → World
  | .fromBlobJSON crates newFails json =>
      w.after (HFTokenizer.fromBlobJSON newFails json w.ledger :
        Except CppException (HFTokenizer crates) × Ledger)
  | .fromBlobByteLevelBPE crates newFails vocab merges addedTokens =>
      w.after (HFTokenizer.fromBlobByteLevelBPE newFails vocab merges addedTokens w.ledger :
        Except CppException (HFTokenizer crates) × Ledger)
  | .encode crates t text options =>
      let call := Tokenizer.encode cs (.huggingFace t : Tokenizer crates lib) text options
      { w with ledger := (call w.ledger).2 }
  | .encodeBatch crates _ t texts options =>
      let call := Tokenizer.encodeBatch cs (.huggingFace t : Tokenizer crates lib) texts options
      { w with ledger := (call w.ledger).2 }
  | .destroy _ t => ⟨t.destroy w.ledger, w.objects.diff (itemOf t.handle)⟩

/-- The worlds that a sequence of calls reaches, the last call first. -/
inductive Run : List Call → World → Prop
  | start : Run [] ⟨Ledger.initial, []⟩
  | call {calls : List Call} {w : World} (call : Call) (h : Run calls w) (hcall : call.Allowed w) :
      Run (call :: calls) (call.exec lib cs w)

variable {lib cs}

/-- **One call** keeps the handles of the live objects out, and nothing else. -/
theorem Call.holds {call : Call} {w : World} (hcall : call.Allowed w)
    (h : w.ledger.Holds w.objects) :
    (call.exec lib cs w).ledger.Holds (call.exec lib cs w).objects := by
  cases call with
  | fromBlobJSON crates newFails json => exact HFTokenizer.holds_fromReturn _ h
  | fromBlobByteLevelBPE crates newFails vocab merges addedTokens =>
    exact HFTokenizer.holds_fromReturn _ h
  | encode crates t text options =>
    show (Tokenizer.encode cs (.huggingFace t) text options w.ledger).2.Holds w.objects
    rw [Tokenizer.encode]
    cases validateEncodeOptions options (Tokenizer.huggingFace t).supportsEncodeFlags with
    | error e => exact h
    | ok u => exact t.holds_encodeImpl text options h
  | encodeBatch crates haligned t texts options =>
    show (Tokenizer.encodeBatch cs (.huggingFace t) texts options w.ledger).2.Holds w.objects
    rw [Tokenizer.encodeBatch]
    cases validateEncodeOptions options (Tokenizer.huggingFace t).supportsEncodeFlags with
    | error e => exact h
    | ok u => exact t.holds_encodeBatchImpl haligned texts options h
  | destroy crates t =>
    obtain ⟨box, hhandle, hmem⟩ := hcall
    have hitem : itemOf t.handle = [box.addr] := by rw [hhandle]; rfl
    show (tokenizersFree t.handle w.ledger).Holds (w.objects.diff (itemOf t.handle))
    refine holds_free (h.perm ?_)
    rw [hitem, List.diff_cons, List.diff_nil]
    exact List.perm_cons_erase hmem

theorem Run.holds {calls : List Call} {w : World} (hrun : Run lib cs calls w) :
    w.ledger.Holds w.objects := by
  induction hrun with
  | start => exact Ledger.Holds.initial
  | call call _ hcall ih => exact Call.holds hcall ih

/-- **Every item is given back exactly once.**  After every sequence of calls, the
items that are out are the handles of the live objects, and no item was given back
twice; and freeing an array of slots or an error message twice is freeing it once. -/
theorem released_exactly_once {calls : List Call} {w : World} (hrun : Run lib cs calls w) :
    w.ledger.Holds w.objects ∧
      (∀ results numSeqs σ, let freed := tokenizersFreeEncodeResults results numSeqs σ
        tokenizersFreeEncodeResults freed.1 numSeqs freed.2 = freed) ∧
      ∀ error σ, let freed := tokenizersFreeErrorMessage error σ
        tokenizersFreeErrorMessage freed.1 freed.2 = freed :=
  ⟨hrun.holds, freeEncodeResults_freed, freeErrorMessage_freed⟩

end Runs

/-- A tokenizer is loaded, encodes a text that is not UTF-8 and a batch, and is destroyed. -/
def sampleCalls : List Call :=
  let t := SampleLibrary.loaded SampleLibrary.plainTokenizer
  [.destroy _ t,
    .encodeBatch _ SampleLibrary.view_documented.padded.batchAligned t [strBytes "ab", []] {},
    .encode _ t [0xff] {},
    .fromBlobJSON SampleLibrary.crates false (strBytes SampleLibrary.plainJson)]

theorem released_exactly_once_plain : ∃ w, Run SampleLibrary.sentencePiece .signed sampleCalls w ∧
    w.objects = [] ∧ w.ledger.Holds [] := by
  -- the object of the plain text has the first handle of all
  have hhas : ∀ w : World, w.objects = [0] →
      w.Has (SampleLibrary.loaded SampleLibrary.plainTokenizer) :=
    fun w h => ⟨_, SampleLibrary.loaded_handle _, by rw [h]; exact List.mem_singleton_self 0⟩
  obtain ⟨w₁, hrun₁, hobjects₁⟩ : ∃ w, Run SampleLibrary.sentencePiece .signed
      (sampleCalls.drop 3) w ∧ w.objects = [0] := by
    refine ⟨_, .call _ .start trivial, ?_⟩
    rw [Call.exec, HFTokenizer.fromBlobJSON_of_fromStr (fromUtf8_strBytes _)
      (SampleLibrary.fromStr_wrapperOf SampleLibrary.fromStr_plain)]
    rfl
  obtain ⟨w₃, hrun₃, hobjects₃⟩ : ∃ w, Run SampleLibrary.sentencePiece .signed
      (sampleCalls.drop 1) w ∧ w.objects = [0] :=
    ⟨_, .call _ (.call _ hrun₁ (hhas w₁ hobjects₁)) (hhas _ hobjects₁), hobjects₁⟩
  have hrun : Run SampleLibrary.sentencePiece .signed sampleCalls _ :=
    .call _ hrun₃ (hhas w₃ hobjects₃)
  have hempty : (Call.exec SampleLibrary.sentencePiece .signed w₃ (.destroy _
      (SampleLibrary.loaded SampleLibrary.plainTokenizer))).objects = [] := by
    show w₃.objects.diff [0] = []
    rw [hobjects₃]
    decide
  have hholds := (released_exactly_once hrun).1
  rw [hempty] at hholds
  exact ⟨_, hrun, hempty, hholds⟩

end Ownership

end TokenizersCpp
