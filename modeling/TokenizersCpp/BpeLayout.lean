import TokenizersCpp.BpeVocabulary
import TokenizersCpp.HandleIsolation

/-!
# One byte-level BPE model, many blobs

What three blobs say is a finite map of tokens to ids and a list of merges
(`BpeModel`, `Says`).  The loader inserts the added tokens into the vocabulary of the
model, so it cannot tell them from the others, and the order in which the entries
stand and the ends of the lines are gone as well.  Two loads of blobs that say one
model therefore answer every call alike (`layouts_agree`), each with a seed of its
own — unless two tokens share an id, since then a seed decides which of them is found.
Whether a load returns does not depend on the layout in either case.
-/

namespace TokenizersCpp

open InsertionLoop Traversal SharedHandle

variable {crates : Crates}

/-- A byte-level BPE model without a layout. -/
structure BpeModel where
  ids : Finmap fun _ : String => UInt32
  merges : Merges

/-- No id belongs to two tokens. -/
def BpeModel.DistinctIds (model : BpeModel) : Prop :=
  ∀ token token' id, model.ids.lookup token = some id → model.ids.lookup token' = some id →
    token = token'

/-- The parts of every merge and their concatenation have an id. -/
def BpeModel.MergesKnown (model : BpeModel) : Prop :=
  ∀ pair ∈ model.merges, ∀ token ∈ [pair.1, pair.2, pair.1 ++ pair.2],
    (model.ids.lookup token).isSome

/-- The model of two lists of ids and a merge list. -/
def BpeModel.ofEntries (ids added : TokenIds) (pairs : Merges) : BpeModel :=
  ⟨(overlay ids added).toFinmap, pairs⟩

/-- The blobs can be read, and this is the model that they say. -/
def Says (crates : Crates) (vocab merges addedTokens : Bytes) (model : BpeModel) : Prop :=
  ∃ ids added pairs, Reads crates vocab merges addedTokens ids added pairs ∧
    BpeModel.ofEntries ids added pairs = model

namespace BpeModel
variable {ids added : TokenIds} {pairs : Merges}

@[simp] theorem lookup_ofEntries (token : String) :
    (ofEntries ids added pairs).ids.lookup token = idOf ids added token :=
  (Finmap.lookup_toFinmap token _).trans (lookup_overlay token)

/-- A token may stand in either blob. -/
theorem ofEntries_append (ids added : TokenIds) (pairs : Merges) :
    ofEntries (ids ++ added) [] pairs = ofEntries ids added pairs := by
  simp only [ofEntries, overlay, insertAll_append, insertAll_nil]

/-- The order of the entries does not matter, if no token occurs twice. -/
theorem ofEntries_perm {ids' : TokenIds} (hperm : ids.Perm ids') (hkeys : ids.NodupKeys) :
    ofEntries ids [] pairs = ofEntries ids' [] pairs := by
  have hone : ∀ {entries : TokenIds}, entries.NodupKeys → ∀ token id id',
      ⟨token, id⟩ ∈ entries → ⟨token, id'⟩ ∈ entries → id = id' :=
    fun h token id id' hid hid' => h.eq_of_mk_mem hid hid'
  have hkeys' : ids'.NodupKeys := (List.perm_nodupKeys hperm).mp hkeys
  refine congrArg (BpeModel.mk · pairs) (Finmap.ext_lookup fun token => Option.ext fun id => ?_)
  rw [Finmap.lookup_toFinmap, Finmap.lookup_toFinmap, overlay, overlay, insertAll_nil,
    insertAll_nil, lookup_insertAll_iff (hone hkeys), lookup_insertAll_iff (hone hkeys'),
    hperm.mem_iff]

theorem distinctIds_ofEntries :
    (ofEntries ids added pairs).DistinctIds ↔ TokenizersCpp.DistinctIds ids added := by
  simp only [DistinctIds, lookup_ofEntries, TokenizersCpp.DistinctIds]

end BpeModel

/-- **The layouts of a model**: its entries in any order, split between the two blobs
at any place, and its merges in a file with or without a header, with either line end
on every line. -/
theorem says_of_layout {ids inVocab inAdded : TokenIds} {vocab addedTokens : String}
    (hkeys : ids.NodupKeys) (hsplit : ids.Perm (inVocab ++ inAdded))
    (hvocab : ReadsTokenIds crates vocab inVocab)
    (hadded : ReadsAddedTokenIds crates addedTokens inAdded) (file : TokenizerWrapper.MergeFile)
    (hversion : ∀ pair ∈ file.merges, TokenizerWrapper.startsWithVersion pair.1 = false) :
    Says crates (strBytes vocab) (strBytes file.text) (strBytes addedTokens)
      (.ofEntries ids [] file.merges) := by
  have hmerges := file.parseMerges_text crates.debugStr
  rw [List.filter_eq_self.mpr fun pair hmem => by rw [hversion pair hmem]; rfl] at hmerges
  refine ⟨inVocab, inAdded, file.merges, ⟨?_, ?_, ?_⟩, ?_⟩
  · exact ⟨vocab, fromUtf8_strBytes vocab, hvocab⟩
  · exact ⟨file.text, fromUtf8_strBytes file.text,
      ((TokenizerWrapper.exact_parseMerges crates.debugStr file.text).ok_iff _).mp hmerges⟩
  · exact ⟨addedTokens, fromUtf8_strBytes addedTokens, hadded⟩
  · rw [← BpeModel.ofEntries_append, BpeModel.ofEntries_perm hsplit hkeys]

/-! ## What the crate does with a model -/

/-- Two tokenizers of the library that no call tells apart. -/
structure Crates.Alike (crates : Crates) (tokenizer tokenizer' : crates.Tokenizer) : Prop where
  encode_eq : ∀ text addSpecialTokens,
    crates.encode tokenizer' text addSpecialTokens = crates.encode tokenizer text addSpecialTokens
  encodeBatch_eq : ∀ texts addSpecialTokens, crates.encodeBatch tokenizer' texts addSpecialTokens =
    crates.encodeBatch tokenizer texts addSpecialTokens
  decode_eq : ∀ ids skipSpecialTokens,
    crates.decode tokenizer' ids skipSpecialTokens = crates.decode tokenizer ids skipSpecialTokens
  idToToken_eq : ∀ id, crates.idToToken tokenizer' id = crates.idToToken tokenizer id
  tokenToId_eq : ∀ token, crates.tokenToId tokenizer' token = crates.tokenToId tokenizer token
  getVocabSize_eq : ∀ withAdded,
    crates.getVocabSize tokenizer' withAdded = crates.getVocabSize tokenizer withAdded

/-- A model reads its two maps with lookups only: two models of one merge list, with
maps that look up the same, are alike. -/
def BpeView.ReadsMaps (view : BpeView crates)
    (bpeNew bpeNew' : Vocab → Merges → Except PanicPayload crates.BPE) : Prop :=
  ∀ {vocab vocab' merges bpe bpe'}, bpeNew vocab merges = .ok bpe →
    bpeNew' vocab' merges = .ok bpe' →
    (∀ token, (view.vocab bpe').lookup token = (view.vocab bpe).lookup token) →
    (∀ id, (view.vocabR bpe').lookup id = (view.vocabR bpe).lookup id) →
    crates.Alike (TokenizerWrapper.bpeWrapper bpe).tokenizer
      (TokenizerWrapper.bpeWrapper bpe').tokenizer

section Models
variable {view : BpeView crates}
  {bpeNew bpeNew' : Vocab → Merges → Except PanicPayload crates.BPE}
  {ids added ids' added' : TokenIds} {pairs : Merges} {bpe bpe' : crates.BPE}

/-- **The models of two layouts** are alike, whatever the two seeds are. -/
theorem BpeView.ReadsMaps.alike (hmaps : view.ReadsMaps bpeNew bpeNew')
    (hdoc : view.Documented bpeNew) (hdoc' : view.Documented bpeNew')
    (hsame : ∀ token, idOf ids' added' token = idOf ids added token)
    (hdistinct : DistinctIds ids added)
    (hbpe : bpeNew (overlay ids added) pairs = .ok bpe)
    (hbpe' : bpeNew' (overlay ids' added') pairs = .ok bpe') :
    crates.Alike (TokenizerWrapper.bpeWrapper bpe).tokenizer
      (TokenizerWrapper.bpeWrapper bpe').tokenizer := by
  have hdistinct' : DistinctIds ids' added' := by
    simpa only [DistinctIds, hsame] using hdistinct
  obtain ⟨order, horder, hvocabR⟩ := hdoc.vocabR_eq hbpe
  obtain ⟨order', horder', hvocabR'⟩ := hdoc'.vocabR_eq hbpe'
  refine hmaps hbpe hbpe' (fun token => ?_) fun id => Option.ext fun token => ?_
  · rw [hdoc.vocab_eq hbpe, hdoc'.vocab_eq hbpe', lookup_overlay, lookup_overlay, hsame]
  · -- each order is one of its own map, but the inverse does not depend on it
    rw [hvocabR, hvocabR', lookup_inverse_order horder hdistinct,
      lookup_inverse_order horder' hdistinct', hsame]

end Models

/-! ## What the calls see -/

section Calls
variable {bpeNew' : Vocab → Merges → Except PanicPayload crates.BPE}

namespace TokenizerWrapper
variable {w : TokenizerWrapper crates} {w' : TokenizerWrapper (crates.reseeded bpeNew')}

/-- Two wrappers without encode variants encode alike, and refuse the same flags. -/
theorem encode_of_alike (halike : crates.Alike w.tokenizer w'.tokenizer)
    (hvariants : w.encodeVariants = none) (hvariants' : w'.encodeVariants = none) (text : String)
    (addSpecialTokens : Bool) (flags : UInt32) :
    w'.encode text addSpecialTokens flags = w.encode text addSpecialTokens flags := by
  simp only [encode, tokenizerForEncode, hvariants, hvariants']
  split
  · rfl
  · split
    · exact congrArg (CrateCall.mapErr _) (halike.encode_eq text addSpecialTokens)
    · rfl

theorem encodeBatch_of_alike (halike : crates.Alike w.tokenizer w'.tokenizer)
    (hvariants : w.encodeVariants = none) (hvariants' : w'.encodeVariants = none)
    (texts : List String) (addSpecialTokens : Bool) (flags : UInt32) :
    w'.encodeBatch texts addSpecialTokens flags = w.encodeBatch texts addSpecialTokens flags := by
  simp only [encodeBatch, tokenizerForEncode, hvariants, hvariants']
  split
  · rfl
  · split
    · exact congrArg (CrateCall.mapErr _) (halike.encodeBatch_eq texts addSpecialTokens)
    · rfl

end TokenizerWrapper

namespace HFTokenizer
variable {addr addr' : Nat} {w : TokenizerWrapper crates}
  {w' : TokenizerWrapper (crates.reseeded bpeNew')}

/-- Two handles on such wrappers give every call the same answer. -/
theorem answerOf_of_alike (halike : crates.Alike w.tokenizer w'.tokenizer)
    (hvariants : w.encodeVariants = none) (hvariants' : w'.encodeVariants = none) (call : Call) :
    answerOf (⟨some ⟨addr', w'⟩, false⟩ : HFTokenizer (crates.reseeded bpeNew')) call =
      answerOf (⟨some ⟨addr, w⟩, false⟩ : HFTokenizer crates) call := by
  have hsingle : ∀ text options,
      (⟨some ⟨addr', w'⟩, false⟩ : HFTokenizer (crates.reseeded bpeNew')).encodeOutcome text
        options = (⟨some ⟨addr, w⟩, false⟩ : HFTokenizer crates).encodeOutcome text options := by
    intro text options
    rw [encodeOutcome_eq rfl, encodeOutcome_eq rfl]
    simp only [TokenizerWrapper.encode_of_alike halike hvariants hvariants']
    rfl
  have hbatch : ∀ texts options,
      (⟨some ⟨addr', w'⟩, false⟩ : HFTokenizer (crates.reseeded bpeNew')).encodeBatchOutcome texts
        options =
      (⟨some ⟨addr, w⟩, false⟩ : HFTokenizer crates).encodeBatchOutcome texts options := by
    intro texts options
    by_cases hne : texts = []
    · subst hne
      rfl
    · rw [encodeBatchOutcome_eq rfl hne, encodeBatchOutcome_eq rfl hne]
      simp only [TokenizerWrapper.encodeBatch_of_alike halike hvariants hvariants']
      rfl
  cases call with
  | encode text options => simp only [answerOf, hsingle]
  | encodeBatch texts options => simp only [answerOf, hbatch]
  | encodeImpl text options => simp only [answerOf, hsingle]
  | encodeBatchImpl texts options => simp only [answerOf, hbatch]
  | decode ids skipSpecialTokens =>
    have hdecode := halike.decode_eq (ids.map Int32.toUInt32) skipSpecialTokens
    simp only [answerOf, Option.map_some, TokenizerWrapper.decodedText]
    exact congrArg (fun text => Answer.text (some (strBytes text))) (by rw [← hdecode]; rfl)
  | idToToken id =>
    have htoken := halike.idToToken_eq id.toUInt32
    simp only [answerOf, Option.map_some, TokenizerWrapper.tokenText]
    exact congrArg (fun text => Answer.text (some (strBytes (text.getD "")))) htoken
  | tokenToId token =>
    refine congrArg Answer.id ?_
    rw [tokenToId_eq rfl, tokenToId_eq rfl]
    refine congrArg (fun id : Option Int32 => id.getD (-1)) ?_
    cases fromUtf8 token with
    | none => rfl
    | some text => exact congrArg (Option.bind · i32TryFrom) (halike.tokenToId_eq text)

end HFTokenizer

end Calls

namespace HFTokenizer

section Layouts
variable {view : BpeView crates}
  {bpeNew' : Vocab → Merges → Except PanicPayload crates.BPE}
  {vocab merges addedTokens vocab' merges' addedTokens' : Bytes} {model : BpeModel}

/-- Blobs load when the merges of their model are known. -/
theorem exists_madeFromBPE_iff (hchecks : crates.ChecksMerges)
    (hgiven : Says crates vocab merges addedTokens model) :
    (∃ t : HFTokenizer crates, MadeFromBPE vocab merges addedTokens t) ↔ model.MergesKnown := by
  obtain ⟨ids, added, pairs, hreads, rfl⟩ := hgiven
  have hknown : (∃ bpe, crates.bpeNew (overlay ids added) pairs = .ok bpe) ↔
      (BpeModel.ofEntries ids added pairs).MergesKnown := by
    rw [hchecks]
    simp only [BpeModel.MergesKnown, BpeModel.lookup_ofEntries, lookup_overlay]
    rfl
  rw [← hknown]
  constructor
  · rintro ⟨t, hmade⟩
    obtain ⟨addr, bpe, hbpe, -⟩ := hmade.model hreads
    exact ⟨bpe, hbpe⟩
  · rintro ⟨bpe, hbpe⟩
    exact ⟨_, madeFromBPE_of_reads hreads hbpe⟩

/-- **Two loads of blobs that say one model**, in whatever layouts and with whatever
seeds: both return or neither does; and if no two tokens of the model share an id, every
call gets the same answer of both. -/
theorem layouts_agree (hdoc : view.Documented crates.bpeNew) (hdoc' : view.Documented bpeNew')
    (hmaps : view.ReadsMaps crates.bpeNew bpeNew') (hchecks : crates.ChecksMerges)
    (hchecks' : (crates.reseeded bpeNew').ChecksMerges)
    (hgiven : Says crates vocab merges addedTokens model)
    (hgiven' : Says crates vocab' merges' addedTokens' model) :
    ((∃ t : HFTokenizer crates, MadeFromBPE vocab merges addedTokens t) ↔
      ∃ t' : HFTokenizer (crates.reseeded bpeNew'), MadeFromBPE vocab' merges' addedTokens' t') ∧
    (model.DistinctIds →
      ∀ (t : HFTokenizer crates) (t' : HFTokenizer (crates.reseeded bpeNew')),
        MadeFromBPE vocab merges addedTokens t → MadeFromBPE vocab' merges' addedTokens' t' →
          (∀ call, answerOf t' call = answerOf t call) ∧ t'.getVocabSize = t.getVocabSize) := by
  have hreseeded : Says (crates.reseeded bpeNew') vocab' merges' addedTokens' model := by
    obtain ⟨ids', added', pairs', hreads', hmodel⟩ := hgiven'
    exact ⟨ids', added', pairs', hreads'.reseeded bpeNew', hmodel⟩
  refine ⟨(exists_madeFromBPE_iff hchecks hgiven).trans
    (exists_madeFromBPE_iff hchecks' hreseeded).symm, fun hdistinct t t' hmade hmade' => ?_⟩
  obtain ⟨ids, added, pairs, hreads, rfl⟩ := hgiven
  obtain ⟨ids', added', pairs', hreads', hmodel⟩ := hreseeded
  obtain rfl : pairs' = pairs := congrArg BpeModel.merges hmodel
  have hsame : ∀ token, idOf ids' added' token = idOf ids added token := by
    intro token
    have hlookup := congrArg (fun model => model.ids.lookup token) hmodel
    simpa only [BpeModel.lookup_ofEntries] using hlookup
  obtain ⟨addr, bpe, hbpe, rfl⟩ := hmade.model hreads
  obtain ⟨addr', bpe', hbpe', rfl⟩ := hmade'.model hreads'
  have halike := hmaps.alike hdoc hdoc' hsame (BpeModel.distinctIds_ofEntries.mp hdistinct)
    hbpe hbpe'
  refine ⟨answerOf_of_alike halike rfl rfl, ?_⟩
  rw [getVocabSize_eq rfl, getVocabSize_eq rfl]
  exact halike.getVocabSize_eq true

end Layouts

end HFTokenizer

namespace SampleLibrary

/-- A sample tokenizer looks its model up and does nothing else with it. -/
theorem bpeView_readsMaps (reversed reversed' : Bool) :
    bpeView.ReadsMaps (bpeNew reversed) (bpeNew reversed') := by
  intro _ _ _ bpe bpe' _ _ hvocab hvocabR
  change ∀ token, AList.lookup token bpe' = AList.lookup token bpe at hvocab
  have hids : segmentIds bpe' = segmentIds bpe := by
    funext segment
    cases segment with
    | token entry piece => rfl
    | text piece => simp only [segmentIds, hvocab]
  have hencode : ∀ text addSpecialTokens, encode ⟨bpe', .new, none⟩ text addSpecialTokens =
      encode ⟨bpe, .new, none⟩ text addSpecialTokens := by
    intro text addSpecialTokens
    simp only [encode, unpadded, Pipeline.run, pipeline, hids]
    rfl
  have hperm : bpe'.entries.Perm bpe.entries :=
    AList.toFinmap_eq.mp (Finmap.ext_lookup hvocab)
  exact
    { encode_eq := hencode
      encodeBatch_eq := fun texts addSpecialTokens => by
        change encodeBatch ⟨bpe', .new, none⟩ texts addSpecialTokens =
          encodeBatch ⟨bpe, .new, none⟩ texts addSpecialTokens
        simp only [encodeBatch, hencode]
      decode_eq := fun ids skipSpecialTokens => by
        change Except.ok (String.join (ids.filterMap fun id => (inverse bpe'.entries).lookup id)) =
          Except.ok (String.join (ids.filterMap fun id => (inverse bpe.entries).lookup id))
        exact congrArg (fun f => Except.ok (String.join (ids.filterMap f))) (funext hvocabR)
      idToToken_eq := hvocabR
      tokenToId_eq := hvocab
      getVocabSize_eq := fun withAdded => by
        change bpe'.entries.length + _ = bpe.entries.length + _
        rw [hperm.length_eq]
        rfl }

theorem reseeded_checksMerges (reversed : Bool) :
    (bpeCrates.reseeded (bpeNew reversed)).ChecksMerges := by
  intro vocab merges
  dsimp only [Crates.reseeded, bpeNew]
  split
  · rename_i hall
    exact iff_of_true ⟨_, rfl⟩ hall
  · rename_i hall
    exact iff_of_false nofun hall

/-- A merge file without merges. -/
def headerOnly : TokenizerWrapper.MergeFile where
  header := some ("#version: 0.2", .crlf)
  pairs := []
  final := true
  header_version := by
    rintro _ ⟨⟩
    decide
  header_line := by
    rintro _ ⟨⟩
    decide
  parts := nofun

/-- The tokens `a` and `b` in the vocabulary. -/
theorem says_vocab : Says bpeCrates (strBytes "\x7b\"a\":0,\"b\":1\x7d") (strBytes "")
    (strBytes "") (.ofEntries [⟨"a", 0⟩, ⟨"b", 1⟩] [] []) :=
  ⟨_, _, _, reads_vocab readsTokenIds_ab .nil, rfl⟩

/-- The same tokens as added tokens, and a header in front of the merges. -/
theorem says_added : Says bpeCrates (strBytes "\x7b\x7d") (strBytes "#version: 0.2\r\n")
    (strBytes "\x7b\"a\":0,\"b\":1\x7d") (.ofEntries [⟨"a", 0⟩, ⟨"b", 1⟩] [] []) :=
  says_of_layout (by unfold List.NodupKeys; decide) (.refl _) ⟨_, _, rfl, rfl, .nil⟩
    (Or.inr ⟨by decide, readsTokenIds_ab⟩) headerOnly nofun

end SampleLibrary

namespace HFTokenizer

open SampleLibrary

/-- The tokens `a` and `b`, in the one blob and in the other. -/
theorem layouts_agree_ab : ∃ (t : HFTokenizer bpeCrates)
    (t' : HFTokenizer (bpeCrates.reseeded (bpeNew true))),
    MadeFromBPE (strBytes "\x7b\"a\":0,\"b\":1\x7d") (strBytes "") (strBytes "") t ∧
      MadeFromBPE (strBytes "\x7b\x7d") (strBytes "#version: 0.2\r\n")
        (strBytes "\x7b\"a\":0,\"b\":1\x7d") t' ∧
      ∀ call, answerOf t' call = answerOf t call := by
  have hagree := layouts_agree (bpeView_documented false) (bpeView_documented true)
    (bpeView_readsMaps false true) bpeCrates_checksMerges (reseeded_checksMerges true)
    says_vocab says_added
  have hdistinct : (BpeModel.ofEntries [⟨"a", 0⟩, ⟨"b", 1⟩] [] []).DistinctIds :=
    BpeModel.distinctIds_ofEntries.mpr distinctIds_ab
  have hmade := bpeTokenizer_made readsTokenIds_ab
  obtain ⟨t', hmade'⟩ := hagree.1.mp ⟨_, hmade⟩
  exact ⟨_, t', hmade, hmade', (hagree.2 hdistinct _ t' hmade hmade').1⟩

end HFTokenizer

end TokenizersCpp
