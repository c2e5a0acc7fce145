import TokenizersCpp.BpeLoader

/-!
# The vocabulary of a byte-level BPE tokenizer

The loader overlays the added tokens on the vocabulary, and `BPE::new` inverts the
result with a loop over a hash map.  The overlay is what the two blobs say
(`lookup_overlay`); but no loop looks at the ids, so two tokens may share one.  Then
the inverse forgets one of them, and which one is decided by the seed of the hash
map.  The two lookups invert each other, and two loads agree, exactly when the blobs
give no id to two tokens (`roundTrips_iff`, `loadsAgree`).
-/

namespace TokenizersCpp

open InsertionLoop Traversal

variable {crates : Crates}

/-- The library with another seed for its hash maps, on which only the order of the
loop in `BPE::new` depends. -/
def Crates.reseeded (crates : Crates)
    (bpeNew : Vocab → Merges → Except PanicPayload crates.BPE) : Crates :=
  { crates with bpeNew }

/-- The two maps of a byte-level BPE model. -/
structure BpeView (crates : Crates) where
  vocab : crates.BPE → Vocab
  vocabR : crates.BPE → AList fun _ : UInt32 => String

/-- What the crate documents of the two maps: `BPE::new` stores its argument, and
inverts it with a loop over its entries in some order; the lookups of a tokenizer
without added tokens are those of its model. -/
structure BpeView.Documented (view : BpeView crates)
    (bpeNew : Vocab → Merges → Except PanicPayload crates.BPE) : Prop where
  vocab_eq : ∀ {vocab merges bpe}, bpeNew vocab merges = .ok bpe →
    ∀ token, (view.vocab bpe).lookup token = vocab.lookup token
  vocabR_eq : ∀ {vocab merges bpe}, bpeNew vocab merges = .ok bpe →
    ∃ order, order.Perm vocab.entries ∧ view.vocabR bpe = inverse order
  tokenToId_eq : ∀ bpe token,
    crates.tokenToId (TokenizerWrapper.bpeWrapper bpe).tokenizer token =
      (view.vocab bpe).lookup token
  idToToken_eq : ∀ bpe id,
    crates.idToToken (TokenizerWrapper.bpeWrapper bpe).tokenizer id = (view.vocabR bpe).lookup id

/-- The vocabulary maps tokens to distinct ids. -/
def Vocab.Distinct (vocabulary : Vocab) : Prop :=
  ∀ token token' id, vocabulary.lookup token = some id → vocabulary.lookup token' = some id →
    token = token'

/-! ## The overlay -/

section Overlay
variable {ids added : TokenIds}

/-- The id of a token: that of the added-token blob if it occurs there, and that of
the vocabulary blob otherwise. -/
def idOf (ids added : TokenIds) (token : String) : Option UInt32 :=
  ((insertAll added ∅).lookup token).or ((insertAll ids ∅).lookup token)

theorem lookup_overlay (token : String) :
    (overlay ids added).lookup token = idOf ids added token :=
  lookup_insertAll_or added (insertAll ids ∅) token

theorem mem_of_idOf {token : String} {id : UInt32} (h : idOf ids added token = some id) :
    ⟨token, id⟩ ∈ ids ++ added := by
  rw [← lookup_overlay, overlay, ← insertAll_append] at h
  rcases mem_of_lookup_insertAll h with hmem | hlook
  · exact hmem
  · rw [AList.lookup_empty] at hlook
    cases hlook

/-- Every token of a blob has an id. -/
theorem exists_idOf {token : String} {id : UInt32} (h : ⟨token, id⟩ ∈ ids ++ added) :
    ∃ id', idOf ids added token = some id' := by
  rw [← lookup_overlay]
  exact Option.isSome_iff_exists.mp (isSome_overlay.mpr ⟨id, h⟩)

/-- The blobs give no id to two tokens. -/
def DistinctIds (ids added : TokenIds) : Prop :=
  ∀ token token' id, idOf ids added token = some id → idOf ids added token' = some id →
    token = token'

theorem distinct_overlay : (overlay ids added).Distinct ↔ DistinctIds ids added := by
  simp only [Vocab.Distinct, lookup_overlay, DistinctIds]

/-- The entries of the overlay, in any order, are the ids of the tokens. -/
theorem mem_order_iff {order : TokenIds} (horder : order.Perm (overlay ids added).entries)
    {token : String} {id : UInt32} : ⟨token, id⟩ ∈ order ↔ idOf ids added token = some id := by
  rw [horder.mem_iff, ← lookup_overlay]
  exact AList.mem_lookup_iff.symm

/-- Without shared ids the inverse is the inverse, whatever the order. -/
theorem lookup_inverse_order {order : TokenIds} (horder : order.Perm (overlay ids added).entries)
    (hdistinct : DistinctIds ids added) {token : String} {id : UInt32} :
    (inverse order).lookup id = some token ↔ idOf ids added token = some id := by
  rw [lookup_inverse_iff, mem_order_iff horder]
  intro token token' id htoken htoken'
  exact hdistinct token token' id ((mem_order_iff horder).mp htoken)
    ((mem_order_iff horder).mp htoken')

/-- The entries of the overlay show whether an id is shared. -/
theorem distinctIds_of_nodup (h : ((overlay ids added).entries.map Sigma.snd).Nodup) :
    DistinctIds ids added := by
  intro token token' id htoken htoken'
  have hmem := (mem_order_iff (.refl _)).mpr htoken
  have hmem' := (mem_order_iff (.refl _)).mpr htoken'
  exact congrArg Sigma.fst (List.inj_on_of_nodup_map h hmem hmem' rfl)

end Overlay

/-- What the blobs say does not depend on the seed. -/
theorem ReadsTokenIds.reseeded {text : String} {ids : TokenIds}
    (h : ReadsTokenIds crates text ids)
    (bpeNew : Vocab → Merges → Except PanicPayload crates.BPE) :
    ReadsTokenIds (crates.reseeded bpeNew) text ids := by
  obtain ⟨value, entries, hjson, hobject, hids⟩ := h
  exact ⟨value, entries, hjson, hobject, hids.imp fun _ _ h => ⟨h.token_eq, h.id_eq⟩⟩

theorem Reads.reseeded {vocab merges addedTokens : Bytes} {ids added : TokenIds} {pairs : Merges}
    (h : Reads crates vocab merges addedTokens ids added pairs)
    (bpeNew : Vocab → Merges → Except PanicPayload crates.BPE) :
    Reads (crates.reseeded bpeNew) vocab merges addedTokens ids added pairs := by
  obtain ⟨⟨vocabText, hvocab, hids⟩, hmerges, addedText, hadded, haddedIds⟩ := h
  exact ⟨⟨vocabText, hvocab, hids.reseeded bpeNew⟩, hmerges, addedText, hadded,
    haddedIds.imp_right fun h => ⟨h.1, h.2.reseeded bpeNew⟩⟩

/-! ## The loaded tokenizer -/

namespace HFTokenizer

open TokenizerWrapper

section Loaded
variable {view : BpeView crates} {vocab merges addedTokens : Bytes} {ids added : TokenIds}
  {pairs : Merges} {t : HFTokenizer crates}

/-- The blobs of a loaded tokenizer can be read. -/
theorem MadeFromBPE.reads (h : MadeFromBPE vocab merges addedTokens t) :
    ∃ ids added pairs, Reads crates vocab merges addedTokens ids added pairs := by
  obtain ⟨newFails, σ, σ', h⟩ := h
  rw [fromBlobByteLevelBPE_eq] at h
  obtain ⟨box, hbuild, -⟩ := wrapper_of_fromReturn h
  obtain ⟨read, hread, -⟩ := bind_eq_ok.mp hbuild
  obtain ⟨ids, added, hreads, -⟩ :=
    ((exact_readBlobs vocab merges addedTokens).ok_iff read).mp hread
  exact ⟨ids, added, read.2, hreads⟩

/-- A loaded tokenizer holds the model of the overlay. -/
theorem MadeFromBPE.model (h : MadeFromBPE vocab merges addedTokens t)
    (hreads : Reads crates vocab merges addedTokens ids added pairs) :
    ∃ addr bpe, crates.bpeNew (overlay ids added) pairs = .ok bpe ∧
      t = ⟨some ⟨addr, bpeWrapper bpe⟩, false⟩ := by
  obtain ⟨newFails, σ, σ', h⟩ := h
  rw [fromBlobByteLevelBPE_eq, load_of_reads hreads] at h
  obtain ⟨⟨addr, wrapper⟩, hbuild, rfl⟩ := wrapper_of_fromReturn h
  obtain ⟨bpe, hbpe, hwrapper⟩ := bind_eq_ok.mp hbuild
  obtain rfl := Except.ok.inj hwrapper
  exact ⟨addr, bpe, unwinding_eq_ok.mp hbpe, rfl⟩

/-- **The two lookups** of a loaded tokenizer: one is read off the blobs, the other
is the inverse that a loop made of it. -/
theorem MadeFromBPE.lookups (hdoc : view.Documented crates.bpeNew)
    (h : MadeFromBPE vocab merges addedTokens t)
    (hreads : Reads crates vocab merges addedTokens ids added pairs) :
    ∃ order, order.Perm (overlay ids added).entries ∧
      (∀ token, t.tokenToId (strBytes token) =
        ((idOf ids added token).bind i32TryFrom).getD (-1)) ∧
      ∀ id, (t.idToToken id).1 =
        some (strBytes (((inverse order).lookup id.toUInt32).getD "")) := by
  obtain ⟨addr, bpe, hbpe, rfl⟩ := h.model hreads
  obtain ⟨order, horder, hvocabR⟩ := hdoc.vocabR_eq hbpe
  refine ⟨order, horder, fun token => ?_, fun id => ?_⟩
  · rw [tokenToId_strBytes rfl, hdoc.tokenToId_eq, hdoc.vocab_eq hbpe, lookup_overlay]
  · rw [idToToken_fst rfl, tokenText, hdoc.idToToken_eq, hvocabR]

/-- `IdToToken(TokenToId(token)) = token` for every token of a blob. -/
def RoundTrips (t : HFTokenizer crates) (ids added : TokenIds) : Prop :=
  ∀ token id, ⟨token, id⟩ ∈ ids ++ added →
    (t.idToToken (t.tokenToId (strBytes token))).1 = some (strBytes token)

/-- Two loads of the blobs agree on `IdToToken`, whatever their seeds are. -/
def LoadsAgree (view : BpeView crates) (vocab merges addedTokens : Bytes)
    (t : HFTokenizer crates) : Prop :=
  ∀ bpeNew, view.Documented bpeNew → ∀ t' : HFTokenizer (crates.reseeded bpeNew),
    MadeFromBPE vocab merges addedTokens t' → ∀ id, (t'.idToToken id).1 = (t.idToToken id).1

/-- An id of 31 bits goes through `int32` and back. -/
theorem tokenToId_of_idOf
    (htoken : ∀ token, t.tokenToId (strBytes token) =
      ((idOf ids added token).bind i32TryFrom).getD (-1))
    (hsmall : ∀ pair ∈ ids ++ added, pair.2.toNat < 2 ^ 31) {token : String} {id : UInt32}
    (h : idOf ids added token = some id) :
    (t.tokenToId (strBytes token)).toUInt32 = id := by
  rw [htoken, h, Option.bind_some, i32TryFrom, if_pos (hsmall _ (mem_of_idOf h))]
  exact UInt32.toUInt32_toInt32 id

theorem strBytes_inj {text text' : String} (h : strBytes text = strBytes text') :
    text = text' := by
  have hutf8 := congrArg fromUtf8 h
  rw [fromUtf8_strBytes, fromUtf8_strBytes] at hutf8
  exact Option.some.inj hutf8

/-- **Every token comes back from its id, exactly when** no id is shared. -/
theorem roundTrips_iff (hdoc : view.Documented crates.bpeNew)
    (hreads : Reads crates vocab merges addedTokens ids added pairs)
    (hsmall : ∀ pair ∈ ids ++ added, pair.2.toNat < 2 ^ 31)
    (hmade : MadeFromBPE vocab merges addedTokens t) :
    RoundTrips t ids added ↔ DistinctIds ids added := by
  obtain ⟨order, horder, htoken, hid⟩ := hmade.lookups hdoc hreads
  constructor
  · intro hround token token' id h h'
    -- the two tokens are looked up with the same id
    have hback := hround token id (mem_of_idOf h)
    have hback' := hround token' id (mem_of_idOf h')
    rw [hid, tokenToId_of_idOf htoken hsmall h] at hback
    rw [hid, tokenToId_of_idOf htoken hsmall h'] at hback'
    exact strBytes_inj (Option.some.inj (hback.symm.trans hback'))
  · intro hdistinct token id hmem
    obtain ⟨id', h⟩ := exists_idOf hmem
    rw [hid, tokenToId_of_idOf htoken hsmall h,
      (lookup_inverse_order horder hdistinct).mpr h, Option.getD_some]

/-- Without shared ids the seed does not matter. -/
theorem loadsAgree (hdoc : view.Documented crates.bpeNew)
    (hreads : Reads crates vocab merges addedTokens ids added pairs)
    (hmade : MadeFromBPE vocab merges addedTokens t) (hdistinct : DistinctIds ids added) :
    LoadsAgree view vocab merges addedTokens t := by
  intro bpeNew hdoc' t' hmade' id
  have hview : (⟨view.vocab, view.vocabR⟩ : BpeView (crates.reseeded bpeNew)).Documented bpeNew :=
    ⟨hdoc'.vocab_eq, hdoc'.vocabR_eq, hdoc'.tokenToId_eq, hdoc'.idToToken_eq⟩
  obtain ⟨order, horder, -, hid⟩ := hmade.lookups hdoc hreads
  obtain ⟨order', horder', -, hid'⟩ := hmade'.lookups hview (hreads.reseeded bpeNew)
  have hlookup : (inverse order').lookup id.toUInt32 = (inverse order).lookup id.toUInt32 :=
    Option.ext fun token => (lookup_inverse_order horder' hdistinct).trans
      (lookup_inverse_order horder hdistinct).symm
  rw [hid, hid', hlookup]

/-- **The vocabulary of a loaded byte-level BPE tokenizer.**  The model gets the
overlay of the blobs; it is injective, every token comes back from its id, and all
loads agree, exactly when the blobs give no id to two tokens. -/
theorem vocabulary_bijective_iff (hdoc : view.Documented crates.bpeNew)
    (hreads : Reads crates vocab merges addedTokens ids added pairs)
    (hsmall : ∀ pair ∈ ids ++ added, pair.2.toNat < 2 ^ 31)
    (hmade : MadeFromBPE vocab merges addedTokens t) :
    ∃ vocabulary addr bpe, crates.bpeNew vocabulary pairs = .ok bpe ∧
      t = ⟨some ⟨addr, bpeWrapper bpe⟩, false⟩ ∧
      (∀ token, vocabulary.lookup token = idOf ids added token) ∧
      (Vocab.Distinct vocabulary ∧ RoundTrips t ids added ∧
          LoadsAgree view vocab merges addedTokens t ↔ DistinctIds ids added) := by
  obtain ⟨addr, bpe, hbpe, ht⟩ := hmade.model hreads
  refine ⟨overlay ids added, addr, bpe, hbpe, ht, lookup_overlay, ?_, fun hdistinct => ?_⟩
  · exact fun h => (roundTrips_iff hdoc hreads hsmall hmade).mp h.2.1
  · exact ⟨distinct_overlay.mpr hdistinct, (roundTrips_iff hdoc hreads hsmall hmade).mpr hdistinct,
      loadsAgree hdoc hreads hmade hdistinct⟩

end Loaded

end HFTokenizer

namespace SampleLibrary

/-- The maps of a sample model. -/
def bpeView : BpeView bpeCrates where
  vocab model := model
  vocabR model := inverse model.entries

theorem bpeView_documented (reversed : Bool) : bpeView.Documented (bpeNew reversed) where
  vocab_eq := by
    intro vocab merges bpe h token
    unfold bpeNew at h
    split at h
    · obtain rfl := Except.ok.inj h
      cases reversed with
      | false => rfl
      | true => exact AList.perm_lookup vocab.entries.reverse_perm
    · cases h
  vocabR_eq := by
    intro vocab merges bpe h
    unfold bpeNew at h
    split at h
    · obtain rfl := Except.ok.inj h
      cases reversed with
      | false => exact ⟨vocab.entries, .refl _, rfl⟩
      | true => exact ⟨vocab.entries.reverse, vocab.entries.reverse_perm, rfl⟩
    · cases h
  tokenToId_eq _ _ := rfl
  idToToken_eq _ _ := rfl

/-- The tokenizer of a vocabulary without merges. -/
def bpeTokenizer (ids : TokenIds) : HFTokenizer bpeCrates :=
  ⟨some (intoRaw (TokenizerWrapper.bpeWrapper (overlay ids [])) Ledger.initial).1, false⟩

theorem bpeTokenizer_made {text : String} {ids : TokenIds}
    (h : ReadsTokenIds bpeCrates text ids) :
    HFTokenizer.MadeFromBPE (strBytes text) (strBytes "") (strBytes "") (bpeTokenizer ids) :=
  HFTokenizer.madeFromBPE_of_reads (reads_vocab h .nil) rfl

theorem of_idOf_ab {token : String} {id : UInt32}
    (h : TokenizersCpp.idOf [⟨"a", 0⟩, ⟨"b", 1⟩] [] token = some id) :
    token = "a" ∧ id = 0 ∨ token = "b" ∧ id = 1 := by
  have hmem := mem_of_idOf h
  simpa only [List.append_nil, List.mem_cons, List.not_mem_nil, or_false, Sigma.mk.injEq,
    heq_eq_eq] using hmem

theorem distinctIds_ab : DistinctIds [⟨"a", 0⟩, ⟨"b", 1⟩] [] :=
  distinctIds_of_nodup (by decide)

/-- The tokens `a` and `b`, and a new id for `b`. -/
theorem reads_overridden : Reads bpeCrates (strBytes "\x7b\"a\":0,\"b\":1\x7d") (strBytes "")
    (strBytes "\x7b\"b\":2\x7d") [⟨"a", 0⟩, ⟨"b", 1⟩] [⟨"b", 2⟩] [] where
  vocab := ⟨_, fromUtf8_strBytes _, readsTokenIds_ab⟩
  merges := ⟨_, fromUtf8_strBytes _, .nil⟩
  addedTokens := ⟨_, fromUtf8_strBytes _,
    Or.inr ⟨by decide, _, _, rfl, rfl, .cons ⟨rfl, 2, rfl, rfl⟩ .nil⟩⟩

end SampleLibrary

namespace HFTokenizer

open SampleLibrary

/-- The vocabulary `{"a": 0, "b": 1}` with the added token `{"b": 2}`: the model gets the
new id, and both tokens come back from theirs. -/
theorem vocabulary_bijective_ab : ∃ (t : HFTokenizer bpeCrates) (vocabulary : Vocab),
    MadeFromBPE (strBytes "\x7b\"a\":0,\"b\":1\x7d") (strBytes "")
        (strBytes "\x7b\"b\":2\x7d") t ∧
      bpeCrates.bpeNew vocabulary [] = .ok vocabulary ∧
      (t.handle.map fun box => box.value) = some (TokenizerWrapper.bpeWrapper vocabulary) ∧
      vocabulary.lookup "a" = some 0 ∧ vocabulary.lookup "b" = some 2 ∧
      RoundTrips t [⟨"a", 0⟩, ⟨"b", 1⟩] [⟨"b", 2⟩] := by
  have hmade := madeFromBPE_of_reads reads_overridden rfl
  obtain ⟨vocabulary, addr, bpe, hbpe, ht, hlookup, hiff⟩ := vocabulary_bijective_iff
    (bpeView_documented false) reads_overridden (by decide) hmade
  obtain rfl := Except.ok.inj hbpe
  refine ⟨_, vocabulary, hmade, hbpe, ?_, ?_, ?_, ?_⟩
  · rw [ht]
    rfl
  · rw [hlookup]
    rfl
  · rw [hlookup]
    rfl
  · exact (hiff.mpr (distinctIds_of_nodup (by decide))).2.1

/-- The vocabulary `{"a": 0, "b": 0}`: both tokens have the id 0, and the seed decides
which of them it stands for. -/
theorem vocabulary_not_bijective :
    MadeFromBPE (strBytes "\x7b\"a\":0,\"b\":0\x7d") (strBytes "") (strBytes "")
        (bpeTokenizer [⟨"a", 0⟩, ⟨"b", 0⟩]) ∧
      (bpeTokenizer [⟨"a", 0⟩, ⟨"b", 0⟩]).tokenToId (strBytes "a") = 0 ∧
      (bpeTokenizer [⟨"a", 0⟩, ⟨"b", 0⟩]).tokenToId (strBytes "b") = 0 ∧
      ((bpeTokenizer [⟨"a", 0⟩, ⟨"b", 0⟩]).idToToken 0).1 = some (strBytes "a") ∧
      ∃ t' : HFTokenizer (bpeCrates.reseeded (bpeNew true)),
        MadeFromBPE (strBytes "\x7b\"a\":0,\"b\":0\x7d") (strBytes "") (strBytes "") t' ∧
          (t'.idToToken 0).1 = some (strBytes "b") := by
  have hids : ReadsTokenIds bpeCrates "\x7b\"a\":0,\"b\":0\x7d" [⟨"a", 0⟩, ⟨"b", 0⟩] :=
    ⟨_, _, rfl, rfl, .cons ⟨rfl, 0, rfl, rfl⟩ (.cons ⟨rfl, 0, rfl, rfl⟩ .nil)⟩
  refine ⟨bpeTokenizer_made hids, ?_, ?_, ?_, _,
    madeFromBPE_of_reads ((reads_vocab hids .nil).reseeded (bpeNew true)) rfl, ?_⟩
  · rw [tokenToId_strBytes rfl]
    rfl
  · rw [tokenToId_strBytes rfl]
    rfl
  · rw [idToToken_fst rfl]
    rfl
  · rw [idToToken_fst rfl]
    rfl

end HFTokenizer

end TokenizersCpp
