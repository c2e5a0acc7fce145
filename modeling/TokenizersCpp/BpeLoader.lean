import TokenizersCpp.BpeMerges
import TokenizersCpp.SampleLibrary

/-!
# The byte-level BPE loader

`FromBlobByteLevelBPE` reads three blobs: two JSON objects of token ids and a
merge list.  What it reads is `Reads`, and every way in which a blob cannot be read
is reported as an invalid argument (`exact_readBlobs`).  The blobs must also agree
with each other, a merge being over tokens of the vocabulary; but this is checked
by `BPE::new` only, which panics, and a panic is reported as an internal error.
So the loader accepts the well-formed blobs, and it blames the caller for all
others except those that can be read and do not agree (`loader_blames_iff`).
-/

namespace TokenizersCpp

open InsertionLoop Traversal

/-- `BPE::new` returns when the parts of every merge and their concatenation are in
the vocabulary, and panics otherwise, as the crate documents. -/
def Crates.ChecksMerges (crates : Crates) : Prop :=
  ∀ vocab merges, (∃ bpe, crates.bpeNew vocab merges = .ok bpe) ↔
    ∀ pair ∈ merges, ∀ token ∈ [pair.1, pair.2, pair.1 ++ pair.2], (vocab.lookup token).isSome

/-- Tokens with their ids, in the order of a blob. -/
abbrev TokenIds := List (Sigma fun _ : String => UInt32)

/-- The entries of the one blob inserted over those of the other. -/
def overlay (ids added : TokenIds) : Vocab := insertAll added (insertAll ids ∅)

theorem isSome_overlay {ids added : TokenIds} {token : String} :
    ((overlay ids added).lookup token).isSome ↔ ∃ id, ⟨token, id⟩ ∈ ids ++ added := by
  rw [overlay, ← insertAll_append, lookup_insertAll_isSome]
  simp

variable {crates : Crates}

/-! ## What the blobs say -/

/-- An entry of a JSON object gives a token its id: an unsigned integer of at most
32 bits. -/
structure IsTokenId (crates : Crates) (entry : String × crates.Value)
    (pair : Sigma fun _ : String => UInt32) : Prop where
  token_eq : pair.1 = entry.1
  id_eq : ∃ n, crates.asU64 entry.2 = some n ∧ n.toNat = pair.2.toNat

/-- The text is a JSON object of token ids. -/
def ReadsTokenIds (crates : Crates) (text : String) (ids : TokenIds) : Prop :=
  ∃ value entries, crates.jsonFromStr text = .ok value ∧ crates.asObject value = some entries ∧
    List.Forall₂ (IsTokenId crates) entries ids

/-- The text is empty or a JSON object of token ids. -/
def ReadsAddedTokenIds (crates : Crates) (text : String) (added : TokenIds) : Prop :=
  text = "" ∧ added = [] ∨ text ≠ "" ∧ ReadsTokenIds crates text added

/-- The three blobs can be read: they are UTF-8 and well formed, each by itself. -/
structure Reads (crates : Crates) (vocab merges addedTokens : Bytes) (ids added : TokenIds)
    (pairs : Merges) : Prop where
  vocab : ∃ text, fromUtf8 vocab = some text ∧ ReadsTokenIds crates text ids
  merges : ∃ text, fromUtf8 merges = some text ∧
    List.Forall₂ IsMergeLine (TokenizerWrapper.mergeLines text) pairs
  addedTokens : ∃ text, fromUtf8 addedTokens = some text ∧ ReadsAddedTokenIds crates text added

/-- The parts of every merge and their concatenation are tokens of a blob. -/
def MergesKnown (ids added : TokenIds) (pairs : Merges) : Prop :=
  ∀ pair ∈ pairs, ∀ token ∈ [pair.1, pair.2, pair.1 ++ pair.2], ∃ id, ⟨token, id⟩ ∈ ids ++ added

/-- The blobs can be read and agree with each other. -/
def WellFormed (crates : Crates) (vocab merges addedTokens : Bytes) : Prop :=
  ∃ ids added pairs, Reads crates vocab merges addedTokens ids added pairs ∧
    MergesKnown ids added pairs

/-! ## Reading them -/

theorem exact_inputStr (utf8Error : Bytes → String) (bytes : Bytes) (name : String) :
    Exact CallerError (fun text => fromUtf8 bytes = some text)
      (inputStr utf8Error (some bytes) bytes.length name) where
  ok_iff _ := inputStr_eq_ok
  refuses hnone := by
    unfold inputStr
    split
    · rename_i hlen
      obtain rfl : bytes = strBytes "" := List.length_eq_zero_iff.mp hlen
      exact absurd (fromUtf8_strBytes "") (hnone "")
    · simp only [List.take_length]
      cases htext : fromUtf8 bytes with
      | some text => exact absurd htext (hnone text)
      | none => exact ⟨_, rfl, _, rfl⟩

theorem exact_mapError {α : Type} (message : String → String) (call : Except String α) :
    Exact CallerError (fun a => call = .ok a)
      (call.mapError fun error => .error (.invalidArgument (message error))) := by
  cases call with
  | ok a => exact (Exact.ok a).congr fun b => ⟨fun h => h ▸ rfl, fun h => (Except.ok.inj h).symm⟩
  | error text => exact Exact.error (fun a => nofun) ⟨_, rfl⟩

namespace TokenizerWrapper

/-- The ids of an object, entry by entry. -/
theorem forall₂_isTokenId_cons {token : String} {value : crates.Value}
    {entries : List (String × crates.Value)} {ids : TokenIds} :
    List.Forall₂ (IsTokenId crates) ((token, value) :: entries) ids ↔
      ∃ n ids', crates.asU64 value = some n ∧ n.toNat < 2 ^ 32 ∧
        ids = ⟨token, n.toUInt32⟩ :: ids' ∧ List.Forall₂ (IsTokenId crates) entries ids' := by
  have hid : ∀ n : UInt64, n.toNat < 2 ^ 32 → n.toUInt32.toNat = n.toNat := fun n hfits => by
    rw [UInt64.toNat_toUInt32, Nat.mod_eq_of_lt hfits]
  constructor
  · intro h
    obtain ⟨⟨token', id⟩, ids', ⟨htoken, n, hn, heq⟩, hids, rfl⟩ :=
      List.forall₂_cons_left_iff.mp h
    have hfits : n.toNat < 2 ^ 32 := heq ▸ id.toNat_lt
    obtain rfl : token' = token := htoken
    obtain rfl : id = n.toUInt32 := UInt32.toNat_inj.mp (heq.symm.trans (hid n hfits).symm)
    exact ⟨n, ids', hn, hfits, rfl, hids⟩
  · rintro ⟨n, ids', hn, hfits, rfl, hids⟩
    exact .cons ⟨rfl, n, hn, (hid n hfits).symm⟩ hids

/-- **The loop over a JSON object** inserts all its entries, or blames the caller. -/
theorem exact_insertTokenIds (kind : String) (entries : List (String × crates.Value))
    (vocab : Vocab) :
    Exact CallerError
      (fun vocab' => ∃ ids, List.Forall₂ (IsTokenId crates) entries ids ∧
        vocab' = insertAll ids vocab)
      (insertTokenIds crates kind entries vocab) := by
  induction entries generalizing vocab with
  | nil =>
    refine (Exact.ok vocab).congr fun vocab' => ⟨fun h => ⟨[], .nil, h⟩, ?_⟩
    rintro ⟨ids, hids, rfl⟩
    obtain rfl := List.forall₂_nil_left_iff.mp hids
    rfl
  | cons entry entries ih =>
    obtain ⟨token, value⟩ := entry
    unfold insertTokenIds
    dsimp only
    cases hvalue : crates.asU64 value with
    | none =>
      refine Exact.error ?_ ⟨_, rfl⟩
      rintro _ ⟨ids, hids, -⟩
      obtain ⟨n, ids', hn, -⟩ := forall₂_isTokenId_cons.mp hids
      rw [hvalue] at hn
      cases hn
    | some n =>
      by_cases hfits : n.toNat < 2 ^ 32
      · simp only [if_pos hfits]
        refine (ih _).congr fun vocab' => ⟨?_, ?_⟩
        · rintro ⟨ids, hids, rfl⟩
          exact ⟨_, forall₂_isTokenId_cons.mpr ⟨n, ids, hvalue, hfits, rfl, hids⟩, rfl⟩
        · rintro ⟨_, hids, rfl⟩
          obtain ⟨n', ids, hn', -, rfl, hrest⟩ := forall₂_isTokenId_cons.mp hids
          obtain rfl := Option.some.inj (hvalue.symm.trans hn')
          exact ⟨ids, hrest, rfl⟩
      · simp only [if_neg hfits]
        refine Exact.error ?_ ⟨_, rfl⟩
        rintro _ ⟨ids, hids, -⟩
        obtain ⟨n', ids', hn', hfits', -⟩ := forall₂_isTokenId_cons.mp hids
        obtain rfl := Option.some.inj (hvalue.symm.trans hn')
        exact hfits hfits'

/-- What both JSON blobs go through: parse, demand an object, insert its entries. -/
theorem exact_readTokenIds (kind : String) {message : String → String} {text : String}
    {vocab : Vocab} {insertObject : crates.Value → Rust Vocab}
    (hobject : ∀ value entries, crates.asObject value = some entries →
      insertObject value = insertTokenIds crates kind entries vocab)
    (hother : ∀ value, crates.asObject value = none →
      ∃ message, insertObject value = .error (.error (.invalidArgument message))) :
    Exact CallerError
      (fun vocab' => ∃ ids, ReadsTokenIds crates text ids ∧ vocab' = insertAll ids vocab)
      ((crates.jsonFromStr text).mapError (fun error => .error (.invalidArgument (message error)))
        >>= insertObject) := by
  have hinsert : ∀ value, Exact CallerError
      (fun vocab' => ∃ ids, (∃ entries, crates.asObject value = some entries ∧
        List.Forall₂ (IsTokenId crates) entries ids) ∧ vocab' = insertAll ids vocab)
      (insertObject value) := by
    intro value
    cases hvalue : crates.asObject value with
    | none =>
      obtain ⟨message, herror⟩ := hother value hvalue
      rw [herror]
      exact Exact.error (fun _ ⟨_, ⟨_, h, _⟩, _⟩ => by cases h) ⟨_, rfl⟩
    | some entries =>
      rw [hobject value entries hvalue]
      refine (exact_insertTokenIds kind entries vocab).congr fun vocab' =>
        exists_congr fun ids => ?_
      refine and_congr_left fun _ => ⟨fun h => ⟨entries, rfl, h⟩, ?_⟩
      rintro ⟨_, ⟨⟩, h⟩
      exact h
  refine ((exact_mapError message _).bind fun value _ => hinsert value).congr fun vocab' => ?_
  constructor
  · rintro ⟨value, hjson, ids, ⟨entries, hvalue, hids⟩, h⟩
    exact ⟨ids, ⟨value, entries, hjson, hvalue, hids⟩, h⟩
  · rintro ⟨ids, ⟨value, entries, hjson, hvalue, hids⟩, h⟩
    exact ⟨value, hjson, ids, ⟨entries, hvalue, hids⟩, h⟩

theorem exact_parseVocab (text : String) :
    Exact CallerError (fun vocab => ∃ ids, ReadsTokenIds crates text ids ∧ vocab = insertAll ids ∅)
      (parseVocab crates text) := by
  refine exact_readTokenIds "Vocabulary" (fun value entries h => ?_) fun value h => ?_
  · rw [h]
  · rw [h]
    exact ⟨_, rfl⟩

theorem exact_insertAddedTokens (text : String) (vocab : Vocab) :
    Exact CallerError
      (fun vocab' => ∃ added, ReadsAddedTokenIds crates text added ∧ vocab' = insertAll added vocab)
      (insertAddedTokens crates text vocab) := by
  unfold insertAddedTokens
  by_cases hempty : text = ""
  · rw [if_pos (by rw [hempty]; rfl)]
    refine (Exact.ok vocab).congr fun vocab' => ⟨fun h => ⟨[], Or.inl ⟨hempty, rfl⟩, h⟩, ?_⟩
    rintro ⟨added, ⟨-, rfl⟩ | ⟨hne, -⟩, h⟩
    · exact h
    · exact absurd hempty hne
  · rw [if_neg (by simpa using hempty)]
    refine (exact_readTokenIds "Added-token" (fun value entries h => ?_) fun value h => ?_).congr
      fun vocab' => exists_congr fun added => and_congr_left fun _ => ⟨?_, ?_⟩
    · rw [h]
    · rw [h]
      exact ⟨_, rfl⟩
    · exact fun h => Or.inr ⟨hempty, h⟩
    · exact fun h => (h.resolve_left fun h => hempty h.1).2

/-- What the loader reads before it builds the model. -/
def readBlobs (crates : Crates) (vocab merges addedTokens : Bytes) : Rust (Vocab × Merges) := do
  let vocab ← inputStr crates.utf8Error (some vocab) vocab.length "BPE vocabulary"
  let merges ← inputStr crates.utf8Error (some merges) merges.length "BPE merges"
  let addedTokens ←
    inputStr crates.utf8Error (some addedTokens) addedTokens.length "BPE added-token map"
  let vocab ← parseVocab crates vocab
  let vocab ← insertAddedTokens crates addedTokens vocab
  let merges ← parseMerges crates.debugStr merges
  return (vocab, merges)

/-- **The blobs are read as they say**, or the caller is blamed. -/
theorem exact_readBlobs (vocab merges addedTokens : Bytes) :
    Exact CallerError
      (fun read => ∃ ids added, Reads crates vocab merges addedTokens ids added read.2 ∧
        read.1 = overlay ids added)
      (readBlobs crates vocab merges addedTokens) := by
  refine ((exact_inputStr _ vocab _).bind fun vocabText _ =>
    (exact_inputStr _ merges _).bind fun mergesText _ =>
    (exact_inputStr _ addedTokens _).bind fun addedText _ =>
    (exact_parseVocab vocabText).bind fun vocab' _ =>
    (exact_insertAddedTokens addedText vocab').bind fun vocab'' _ =>
    (exact_parseMerges _ mergesText).bind fun pairs _ => Exact.ok (vocab'', pairs)).congr ?_
  rintro ⟨read, pairs⟩
  constructor
  · rintro ⟨vocabText, hvocab, mergesText, hmerges, addedText, hadded, _, ⟨ids, hids, rfl⟩,
      _, ⟨added, haddedIds, rfl⟩, pairs', hpairs, heq⟩
    obtain ⟨rfl, rfl⟩ := Prod.mk.inj heq
    exact ⟨ids, added, ⟨⟨vocabText, hvocab, hids⟩, ⟨mergesText, hmerges, hpairs⟩,
      ⟨addedText, hadded, haddedIds⟩⟩, rfl⟩
  · rintro ⟨ids, added, ⟨⟨vocabText, hvocab, hids⟩, ⟨mergesText, hmerges, hpairs⟩,
      ⟨addedText, hadded, haddedIds⟩⟩, rfl⟩
    exact ⟨vocabText, hvocab, mergesText, hmerges, addedText, hadded, _, ⟨ids, hids, rfl⟩,
      _, ⟨added, haddedIds, rfl⟩, pairs, hpairs, rfl⟩

/-- The wrapper around a model. -/
def bpeWrapper (bpe : crates.BPE) : TokenizerWrapper crates where
  tokenizer := crates.withDecoder
    (crates.withPreTokenizer (crates.tokenizerNew bpe) ⟨false, false, false⟩) ⟨false, false, false⟩
  encodeVariants := none
  decodeStr := .new
  idToTokenResult := .new

/-- What the loader builds from the blobs it has read. -/
def buildModel (crates : Crates) (read : Vocab × Merges) : Rust (TokenizerWrapper crates) := do
  let bpe ← unwinding (crates.bpeNew read.1 read.2)
  return bpeWrapper bpe

theorem buildModel_ok {vocab : Vocab} {pairs : Merges} {bpe : crates.BPE}
    (h : crates.bpeNew vocab pairs = .ok bpe) :
    buildModel crates (vocab, pairs) = .ok (bpeWrapper bpe) := by
  rw [buildModel, h]
  rfl

theorem buildModel_panic {vocab : Vocab} {pairs : Merges} {payload : PanicPayload}
    (h : crates.bpeNew vocab pairs = .error payload) :
    buildModel crates (vocab, pairs) = .error (.panic payload) := by
  rw [buildModel, h]
  rfl

end TokenizerWrapper

/-! ## Loading them -/

namespace HFTokenizer

open TokenizerWrapper

/-- What `FromBlobByteLevelBPE` returns or throws, unless the allocation of the C++
object fails. -/
def bpeOutcome (crates : Crates) (vocab merges addedTokens : Bytes) (σ : Ledger) :
    Except CppException (HFTokenizer crates) :=
  (fromBlobByteLevelBPE false vocab merges addedTokens σ).1

/-- The factory reads the blobs and builds the model. -/
theorem fromBlobByteLevelBPE_eq (newFails : Bool) (vocab merges addedTokens : Bytes) (σ : Ledger) :
    (fromBlobByteLevelBPE newFails vocab merges addedTokens σ :
        Except CppException (HFTokenizer crates) × Ledger) =
      fromReturn newFails "BPE tokenizer factory succeeded with a null handle" false
        (ffiCall (some .null) (writeSlot "Output tokenizer handle is null" none some (some none)
          (readBlobs crates vocab merges addedTokens >>= buildModel crates)) σ) := by
  have hload : (do
      let vocab ← inputStr crates.utf8Error (some vocab) vocab.length "BPE vocabulary"
      let merges ← inputStr crates.utf8Error (some merges) merges.length "BPE merges"
      let addedTokens ←
        inputStr crates.utf8Error (some addedTokens) addedTokens.length "BPE added-token map"
      byteLevelBpeFromStr crates vocab merges addedTokens) =
        readBlobs crates vocab merges addedTokens >>= buildModel crates := by
    simp only [readBlobs, bind_assoc, pure_bind]
    rfl
  rw [← hload]
  rfl

section Load
variable {vocab merges addedTokens : Bytes} {ids added : TokenIds} {pairs : Merges}

/-- Blobs that cannot be read are blamed on the caller. -/
theorem fromBlob_of_unread
    (h : ∀ ids added pairs, ¬ Reads crates vocab merges addedTokens ids added pairs) (σ : Ledger) :
    ∃ message, bpeOutcome crates vocab merges addedTokens σ =
      .error (.tokenizerError .kInvalidArgument message) := by
  obtain ⟨abort, hread, message, rfl⟩ := (exact_readBlobs vocab merges addedTokens).refuses
    fun _ ⟨ids, added, hreads, _⟩ => h ids added _ hreads
  rw [bpeOutcome, fromBlobByteLevelBPE_eq, fromReturn_abort (by rw [hread]; rfl)]
  exact ⟨_, rfl⟩

/-- Blobs that can be read are handed to `BPE::new`. -/
theorem readBlobs_of_reads (h : Reads crates vocab merges addedTokens ids added pairs) :
    readBlobs crates vocab merges addedTokens = .ok (overlay ids added, pairs) :=
  ((exact_readBlobs vocab merges addedTokens).ok_iff _).mpr ⟨ids, added, h, rfl⟩

theorem load_of_reads (h : Reads crates vocab merges addedTokens ids added pairs) :
    (readBlobs crates vocab merges addedTokens >>= buildModel crates) =
      buildModel crates (overlay ids added, pairs) := by
  rw [readBlobs_of_reads h, ok_bind]

/-- Whether the merges are over known tokens does not depend on the reading. -/
theorem mergesKnown_of_reads (h : Reads crates vocab merges addedTokens ids added pairs)
    (hknown : MergesKnown ids added pairs) {ids' added' : TokenIds} {pairs' : Merges}
    (h' : Reads crates vocab merges addedTokens ids' added' pairs') :
    MergesKnown ids' added' pairs' := by
  have hread := readBlobs_of_reads h'
  rw [readBlobs_of_reads h] at hread
  obtain ⟨hvocab, rfl⟩ := Prod.mk.inj (Except.ok.inj hread)
  intro pair hpair token htoken
  rw [← isSome_overlay, ← hvocab, isSome_overlay]
  exact hknown pair hpair token htoken

/-- A model that `BPE::new` returns makes a tokenizer. -/
theorem madeFromBPE_of_reads (h : Reads crates vocab merges addedTokens ids added pairs)
    {bpe : crates.BPE} (hbpe : crates.bpeNew (overlay ids added) pairs = .ok bpe) :
    MadeFromBPE vocab merges addedTokens
      ⟨some (intoRaw (bpeWrapper bpe) Ledger.initial).1, false⟩ := by
  refine ⟨false, Ledger.initial, (intoRaw (bpeWrapper bpe) Ledger.initial).2, ?_⟩
  rw [fromBlobByteLevelBPE_eq, fromReturn_ok ((load_of_reads h).trans (buildModel_ok hbpe))]
  rfl

/-- They load when they agree, and otherwise the panic of `BPE::new` is reported. -/
theorem fromBlob_of_reads (hchecks : crates.ChecksMerges)
    (h : Reads crates vocab merges addedTokens ids added pairs) (σ : Ledger) :
    (MergesKnown ids added pairs ∧ ∃ t, bpeOutcome crates vocab merges addedTokens σ = .ok t) ∨
      ¬ MergesKnown ids added pairs ∧ ∃ message, bpeOutcome crates vocab merges addedTokens σ =
        .error (.tokenizerError .kInternal message) := by
  have hknown : (∃ bpe, crates.bpeNew (overlay ids added) pairs = .ok bpe) ↔
      MergesKnown ids added pairs := by
    rw [hchecks]
    simp only [isSome_overlay, MergesKnown]
  rw [bpeOutcome, fromBlobByteLevelBPE_eq, load_of_reads h]
  cases hbpe : crates.bpeNew (overlay ids added) pairs with
  | ok bpe =>
    rw [fromReturn_ok (buildModel_ok hbpe)]
    exact Or.inl ⟨hknown.mp ⟨bpe, hbpe⟩, _, rfl⟩
  | error payload =>
    rw [fromReturn_abort (buildModel_panic hbpe)]
    refine Or.inr ⟨fun hall => ?_, _, rfl⟩
    obtain ⟨bpe, hok⟩ := hknown.mpr hall
    rw [hbpe] at hok
    cases hok

end Load

/-- The factory accepts the blobs if they are well formed, and blames the caller if
they are not. -/
def BlamesCaller (crates : Crates) (vocab merges addedTokens : Bytes) : Prop :=
  ∀ σ, ((∃ t, bpeOutcome crates vocab merges addedTokens σ = .ok t) ↔
      WellFormed crates vocab merges addedTokens) ∧
    (¬ WellFormed crates vocab merges addedTokens →
      ∃ message, bpeOutcome crates vocab merges addedTokens σ =
        .error (.tokenizerError .kInvalidArgument message))

/-- An internal error blames nobody. -/
theorem not_blamesCaller {vocab merges addedTokens : Bytes} {σ : Ledger} {message : String}
    (h : bpeOutcome crates vocab merges addedTokens σ =
      .error (.tokenizerError .kInternal message)) :
    ¬ BlamesCaller crates vocab merges addedTokens := by
  intro hblames
  obtain ⟨haccepts, hrejects⟩ := hblames σ
  rw [h] at haccepts hrejects
  have hnot : ¬ WellFormed crates vocab merges addedTokens := by
    intro hwell
    obtain ⟨t, hok⟩ := haccepts.mpr hwell
    cases hok
  obtain ⟨message', hinvalid⟩ := hrejects hnot
  cases hinvalid

/-- **The byte-level BPE loader** accepts exactly the well-formed blobs and blames the
caller for all others, exactly when the merges, as far as the blobs can be read, are
over known tokens. -/
theorem loader_blames_iff (hchecks : crates.ChecksMerges) (vocab merges addedTokens : Bytes) :
    BlamesCaller crates vocab merges addedTokens ↔
      ∀ ids added pairs, Reads crates vocab merges addedTokens ids added pairs →
        MergesKnown ids added pairs := by
  constructor
  · intro hblames ids added pairs hreads
    rcases fromBlob_of_reads hchecks hreads Ledger.initial with ⟨hknown, -⟩ | ⟨-, message, herror⟩
    · exact hknown
    · exact absurd hblames (not_blamesCaller herror)
  · intro hknown σ
    by_cases hread : ∃ ids added pairs, Reads crates vocab merges addedTokens ids added pairs
    · obtain ⟨ids, added, pairs, hreads⟩ := hread
      have hwell : WellFormed crates vocab merges addedTokens :=
        ⟨ids, added, pairs, hreads, hknown ids added pairs hreads⟩
      have hok := (fromBlob_of_reads hchecks hreads σ).resolve_right fun h =>
        h.1 (hknown ids added pairs hreads)
      exact ⟨iff_of_true hok.2 hwell, fun hnot => absurd hwell hnot⟩
    · push Not at hread
      have hnot : ¬ WellFormed crates vocab merges addedTokens :=
        fun ⟨ids, added, pairs, hreads, _⟩ => hread ids added pairs hreads
      obtain ⟨message, herror⟩ := fromBlob_of_unread hread σ
      refine ⟨iff_of_false (fun ⟨t, hok⟩ => ?_) hnot, fun _ => ⟨message, herror⟩⟩
      rw [herror] at hok
      cases hok

end HFTokenizer

/-! ## A library that checks merges -/

namespace SampleLibrary

/-- Some vocabularies, with their JSON texts. -/
def vocabTexts : List (String × JsonValue) :=
  [("\x7b\x7d", .object []),
    ("\x7b\"a\":0,\"b\":1\x7d", .object [("a", .number 0), ("b", .number 1)]),
    ("\x7b\"a\":0,\"b\":0\x7d", .object [("a", .number 0), ("b", .number 0)]),
    ("\x7b\"a\":4294967294\x7d", .object [("a", .number 4294967294)]),
    ("\x7b\"a\":0,\"b\":1,\"ab\":2\x7d",
      .object [("a", .number 0), ("b", .number 1), ("ab", .number 2)]),
    ("\x7b\"b\":2\x7d", .object [("b", .number 2)])]

/-- The entries of a map in the opposite order. -/
def backwards (map : Vocab) : Vocab :=
  ⟨map.entries.reverse, (List.perm_nodupKeys map.entries.reverse_perm).mpr map.nodupKeys⟩

/-- `BPE::new` over merges of known tokens.  The seed of the hash map decides in what
order the model keeps its entries. -/
def bpeNew (reversed : Bool) (model : Vocab) (merges : Merges) : Except PanicPayload Vocab :=
  if ∀ pair ∈ merges, ∀ token ∈ [pair.1, pair.2, pair.1 ++ pair.2],
      (model.lookup token).isSome then
    .ok (if reversed then backwards model else model)
  else
    .error (.str "MergeTokenOutOfVocabulary")

/-- The sample library with these vocabularies and models. -/
def bpeCrates : Crates :=
  { SampleLibrary.crates with
    bpeNew := bpeNew false
    decode := fun t ids _ =>
      .ok (String.join (ids.filterMap fun id => (inverse t.model.entries).lookup id))
    idToToken := fun t id => (inverse t.model.entries).lookup id
    tokenToId := fun t token => t.model.lookup token
    jsonFromStr := fun text =>
      match vocabTexts.lookup text with
      | some value => .ok value
      | none => .error "expected value at line 1 column 1" }

theorem bpeCrates_checksMerges : bpeCrates.ChecksMerges := by
  intro vocab merges
  dsimp only [bpeCrates, bpeNew]
  split
  · rename_i hall
    exact iff_of_true ⟨vocab, rfl⟩ hall
  · rename_i hall
    exact iff_of_false nofun hall

/-- The blobs of a vocabulary, with a merge list and without added tokens. -/
theorem reads_vocab {crates : Crates} {text merges : String} {ids : TokenIds} {pairs : Merges}
    (hids : ReadsTokenIds crates text ids)
    (hpairs : List.Forall₂ IsMergeLine (TokenizerWrapper.mergeLines merges) pairs) :
    Reads crates (strBytes text) (strBytes merges) (strBytes "") ids [] pairs where
  vocab := ⟨text, fromUtf8_strBytes text, hids⟩
  merges := ⟨merges, fromUtf8_strBytes merges, hpairs⟩
  addedTokens := ⟨"", fromUtf8_strBytes "", Or.inl ⟨rfl, rfl⟩⟩

theorem readsTokenIds_ab :
    ReadsTokenIds bpeCrates "\x7b\"a\":0,\"b\":1\x7d" [⟨"a", 0⟩, ⟨"b", 1⟩] :=
  ⟨_, _, rfl, rfl, .cons ⟨rfl, 0, rfl, rfl⟩ (.cons ⟨rfl, 1, rfl, rfl⟩ .nil)⟩

theorem mergeLines_ab :
    List.Forall₂ IsMergeLine (TokenizerWrapper.mergeLines "a b") [("a", "b")] :=
  .cons ⟨by decide, by decide, by decide⟩ .nil

end SampleLibrary

namespace HFTokenizer

/-- The merge `a b` makes `ab`, which is a token. -/
theorem loader_blames_ab : BlamesCaller SampleLibrary.bpeCrates
    (strBytes "\x7b\"a\":0,\"b\":1,\"ab\":2\x7d") (strBytes "a b") (strBytes "") := by
  have hids : ReadsTokenIds SampleLibrary.bpeCrates "\x7b\"a\":0,\"b\":1,\"ab\":2\x7d"
      [⟨"a", 0⟩, ⟨"b", 1⟩, ⟨"ab", 2⟩] :=
    ⟨_, _, rfl, rfl, .cons ⟨rfl, 0, rfl, rfl⟩
      (.cons ⟨rfl, 1, rfl, rfl⟩ (.cons ⟨rfl, 2, rfl, rfl⟩ .nil))⟩
  have hknown : MergesKnown [⟨"a", 0⟩, ⟨"b", 1⟩, ⟨"ab", 2⟩] [] [("a", "b")] := by
    intro pair hpair token htoken
    obtain rfl := List.mem_singleton.mp hpair
    exact isSome_overlay.mp ((by decide : ∀ token ∈ ["a", "b", "ab"],
      ((overlay [⟨"a", 0⟩, ⟨"b", 1⟩, ⟨"ab", 2⟩] []).lookup token).isSome) token htoken)
  refine (loader_blames_iff SampleLibrary.bpeCrates_checksMerges _ _ _).mpr ?_
  intro ids added pairs hreads
  exact mergesKnown_of_reads (SampleLibrary.reads_vocab hids SampleLibrary.mergeLines_ab) hknown
    hreads

/-- The merge `a b` makes `ab`, which is not a token: an internal error. -/
theorem loader_panics_ab :
    (∃ message, bpeOutcome SampleLibrary.bpeCrates (strBytes "\x7b\"a\":0,\"b\":1\x7d")
      (strBytes "a b") (strBytes "") Ledger.initial =
        .error (.tokenizerError .kInternal message)) ∧
    ¬ BlamesCaller SampleLibrary.bpeCrates (strBytes "\x7b\"a\":0,\"b\":1\x7d")
      (strBytes "a b") (strBytes "") := by
  have hreads : Reads SampleLibrary.bpeCrates (strBytes "\x7b\"a\":0,\"b\":1\x7d")
      (strBytes "a b") (strBytes "") [⟨"a", 0⟩, ⟨"b", 1⟩] [] [("a", "b")] :=
    SampleLibrary.reads_vocab SampleLibrary.readsTokenIds_ab SampleLibrary.mergeLines_ab
  have hunknown : ¬ MergesKnown [⟨"a", 0⟩, ⟨"b", 1⟩] [] [("a", "b")] := by
    intro h
    have hab := isSome_overlay.mpr (h ("a", "b") (List.mem_singleton_self _) "ab" (by decide))
    exact absurd hab (by decide)
  obtain ⟨-, message, herror⟩ := (fromBlob_of_reads SampleLibrary.bpeCrates_checksMerges hreads
    Ledger.initial).resolve_left fun h => hunknown h.1
  exact ⟨⟨message, herror⟩, not_blamesCaller herror⟩

end HFTokenizer

end TokenizersCpp
