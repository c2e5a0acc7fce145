import TokenizersCpp.BatchParity
import TokenizersCpp.IdConversion
import TokenizersCpp.IgnoreSpecial

/-!
# Added tokens in untrusted text

The encode flags are there for texts that nobody vouches for: a prompt that spells a
control token must not turn into the control token.  `encode_origin` says where the
ids of a call come from — the model and the post-processor, the padding, and the added
tokens that occur in the text and that the flags do not ignore.  The flags do nothing
else: on a text without a token that they ignore a call returns what it returns
without them (`encode_flags_eq`).
-/

namespace TokenizersCpp

open LeftmostScan Tokenizer Traversal

/-! ## What a flag word ignores -/

/-- The added tokens that a flag word ignores. -/
def EncodeFlags.Ignores (flags : EncodeFlags) (entry : AddedToken) : Prop :=
  flags.bits &&& encodeFlagIgnoreAddedTokens ≠ 0 ∨
    flags.bits &&& encodeFlagIgnoreSpecialTokens ≠ 0 ∧ entry.special = true

/-- The added vocabulary of the tokenizer that a flag word selects. -/
def AddedTokens.under (vocabulary : AddedTokens) (flags : EncodeFlags) : AddedTokens :=
  if flags.bits &&& encodeFlagIgnoreAddedTokens ≠ 0 then .new
  else if flags.bits &&& encodeFlagIgnoreSpecialTokens ≠ 0 then vocabulary.ignoringSpecial
  else vocabulary

/-- The flag words without unknown bits. -/
theorem flags_of_accepted {flags : EncodeFlags} {addSpecialTokens supports : Bool}
    (h : EncodeOptions.Accepted ⟨addSpecialTokens, flags⟩ supports) :
    flags = .kNone ∨ flags = .kIgnoreSpecialTokens ∨ flags = .kIgnoreAddedTokens ∨
      flags = .kIgnoreSpecialTokens ||| .kIgnoreAddedTokens := by
  obtain ⟨bits⟩ := flags
  have hknown : bits &&& ~~~kKnownEncodeFlags = 0 := h.1
  have hlow : bits &&& 3 = bits := by
    calc bits &&& 3 = (bits &&& 3) ||| (bits &&& ~~~kKnownEncodeFlags) := by
          rw [hknown, UInt32.or_zero]
      _ = bits &&& (3 ||| ~~~kKnownEncodeFlags) :=
          UInt32.eq_of_toBitVec_eq BitVec.and_or_distrib_left.symm
      _ = bits := UInt32.and_neg_one
  have hlt : bits.toNat < 4 := by
    have hmod : (bits &&& 3).toNat = bits.toNat % 2 ^ 2 := by
      rw [UInt32.toNat_and]
      exact Nat.and_two_pow_sub_one_eq_mod _ 2
    rw [hlow] at hmod
    omega
  have hcases : bits = 0 ∨ bits = 1 ∨ bits = 2 ∨ bits = 3 := by
    simp only [← UInt32.toNat_inj]
    change bits.toNat = 0 ∨ bits.toNat = 1 ∨ bits.toNat = 2 ∨ bits.toNat = 3
    omega
  exact hcases.imp (congrArg EncodeFlags.mk) (Or.imp (congrArg EncodeFlags.mk)
    (Or.imp (congrArg EncodeFlags.mk) (congrArg EncodeFlags.mk)))

/-- An entry of the selected vocabulary is one that the flags do not ignore, unless its
matches are skipped. -/
theorem AddedTokens.of_mem_under {vocabulary : AddedTokens} {flags : EncodeFlags}
    {entry : AddedToken} (hmem : entry ∈ (vocabulary.under flags).entries)
    (hkept : ¬ ((vocabulary.under flags).encodeSpecialTokens = true ∧ entry.special = true)) :
    entry ∈ vocabulary.entries ∧ ¬ flags.Ignores entry := by
  unfold AddedTokens.under at hmem hkept
  split at hmem
  · cases hmem
  · rename_i hadded
    rw [if_neg hadded] at hkept
    split at hmem
    · rename_i hspecial
      rw [if_pos hspecial] at hkept
      exact ⟨hmem, fun h => h.elim hadded fun h => hkept ⟨rfl, h.2⟩⟩
    · rename_i hspecial
      exact ⟨hmem, fun h => h.elim hadded fun h => hspecial h.1⟩

/-! ## Passes -/

namespace Pipeline

variable (pl : Pipeline) (components : pl.Components)

/-- The text of an entry stands in a piece. -/
def EntryOccurs (entry : AddedToken) (piece : pl.Piece) : Prop :=
  pl.pattern components entry ≠ [] ∧ pl.pattern components entry <:+: pl.chars piece

/-- The text of an entry stands in the input: as it is, or for a normalized entry in a
normalized piece that the first pass leaves. -/
def Occurs (vocabulary : AddedTokens) (text : String) (entry : AddedToken) : Prop :=
  if entry.normalized then
    ∃ piece, .text piece ∈ pl.extract components vocabulary text ∧
      pl.EntryOccurs components entry (pl.normalize components piece)
  else
    pl.EntryOccurs components entry (pl.ofText text)

variable {pl components} {vocabulary : AddedTokens} {flags : EncodeFlags}

/-- A pass recognizes entries that it searches and that occur. -/
theorem occurs_of_recognized {normalized : Bool} {piece : pl.Piece} {m : Match AddedToken}
    (h : m ∈ pl.recognized components vocabulary normalized piece) :
    m.entry ∈ vocabulary.entries ∧ m.entry.normalized = normalized ∧
      pl.EntryOccurs components m.entry piece ∧
      ¬ (vocabulary.encodeSpecialTokens = true ∧ m.entry.special = true) := by
  obtain ⟨hscan, hkept⟩ := List.mem_filter.mp h
  obtain ⟨hentry, hpos⟩ := mem_of_mem_scanFrom hscan
  obtain ⟨hmem, hpass⟩ := List.mem_filter.mp hentry
  refine ⟨hmem, by simpa using hpass, ⟨List.length_pos_iff.mp hpos, ?_⟩,
    fun ⟨hflag, hspecial⟩ => by simp [hflag, hspecial] at hkept⟩
  exact isInfix_of_mem_scanFrom hscan

/-- **A pass over a piece without ignored entries** does not depend on the flags. -/
theorem recognized_under {normalized : Bool} {piece : pl.Piece}
    (habsent : ∀ entry ∈ vocabulary.entries, entry.normalized = normalized →
      flags.Ignores entry → ¬ pl.EntryOccurs components entry piece) :
    pl.recognized components (vocabulary.under flags) normalized piece =
      pl.recognized components vocabulary normalized piece := by
  unfold AddedTokens.under
  split
  · rename_i hadded
    have hnone : pl.recognized components .new normalized piece = [] :=
      List.eq_nil_iff_forall_not_mem.mpr fun m hm =>
        absurd (occurs_of_recognized hm).1 List.not_mem_nil
    have hnone' : pl.recognized components vocabulary normalized piece = [] := by
      refine List.eq_nil_iff_forall_not_mem.mpr fun m hm => ?_
      obtain ⟨hmem, hpass, hoccurs, -⟩ := occurs_of_recognized hm
      exact habsent m.entry hmem hpass (Or.inl hadded) hoccurs
    rw [hnone, hnone']
  · split
    · rename_i hspecial
      rw [recognized_ignoringSpecial, recognized]
      refine List.filter_congr fun m hm => ?_
      obtain ⟨hentry, hpos⟩ := mem_of_mem_scanFrom hm
      obtain ⟨hmem, hpass⟩ := List.mem_filter.mp hentry
      have hordinary : m.entry.special = false := by
        refine Bool.eq_false_iff.mpr fun hspec => habsent m.entry hmem (by simpa using hpass)
          (Or.inr ⟨hspecial, hspec⟩) ⟨List.length_pos_iff.mp hpos, ?_⟩
        exact isInfix_of_mem_scanFrom hm
      rw [hordinary, Bool.and_false]
    · rfl

/-- **A text without ignored entries** is encoded as without the flags. -/
theorem run_under {text : String} (habsent : ∀ entry ∈ vocabulary.entries, flags.Ignores entry →
      ¬ pl.Occurs components vocabulary text entry) (addSpecialTokens : Bool) :
    pl.run components (vocabulary.under flags) text addSpecialTokens =
      pl.run components vocabulary text addSpecialTokens := by
  have hextract : pl.extract components (vocabulary.under flags) text =
      pl.extract components vocabulary text := by
    rw [extract, extract, recognized_under fun entry hmem hraw hignored => ?_]
    have := habsent entry hmem hignored
    rwa [Occurs, hraw, if_neg Bool.false_ne_true] at this
  have hsegments : (pl.extract components vocabulary text).flatMap
      (pl.extractNormalized components (vocabulary.under flags)) =
        (pl.extract components vocabulary text).flatMap
          (pl.extractNormalized components vocabulary) := by
    refine List.flatMap_congr fun segment hsegment => ?_
    cases segment with
    | token entry piece => rfl
    | text piece =>
      rw [extractNormalized, extractNormalized,
        recognized_under fun entry hmem hnormalized hignored hoccurs => ?_]
      refine habsent entry hmem hignored ?_
      rw [Occurs, if_pos hnormalized]
      exact ⟨piece, hsegment, hoccurs⟩
  rw [run, run, hextract, hsegments]

/-! ## Where ids come from -/

variable (pl) in
/-- What the library documents about ids: the tokens of a cut are those of its matches;
and an id is one of the model's or the post-processor's own, or that of a token among
the segments. -/
structure Traced (own : pl.Components → Bool → UInt32 → Prop) : Prop where
  split_token : ∀ piece ms entry part, .token entry part ∈ pl.split piece ms →
    ∃ m ∈ ms, m.entry = entry
  process_ids : ∀ components segments addSpecialTokens ids,
    pl.process components segments addSpecialTokens = .ok ids → ∀ id ∈ ids,
      own components addSpecialTokens id ∨ ∃ entry part, .token entry part ∈ segments ∧
        entry.id = id

variable {own : pl.Components → Bool → UInt32 → Prop}

/-- A token segment is an entry that occurs and that the flags do not ignore. -/
theorem occurs_of_token (traced : pl.Traced own) {text : String} {entry : AddedToken}
    {part : pl.Piece} (h : .token entry part ∈
      (pl.extract components (vocabulary.under flags) text).flatMap
        (pl.extractNormalized components (vocabulary.under flags))) :
    entry ∈ vocabulary.entries ∧ ¬ flags.Ignores entry ∧
      pl.Occurs components (vocabulary.under flags) text entry := by
  obtain ⟨segment, hsegment, htoken⟩ := List.mem_flatMap.mp h
  cases segment with
  | token entry' piece =>
    -- found in the raw text, and kept by the second pass
    obtain ⟨rfl, rfl⟩ : entry = entry' ∧ part = piece := by
      simpa [extractNormalized] using htoken
    obtain ⟨m, hm, rfl⟩ := traced.split_token _ _ _ _ hsegment
    obtain ⟨hmem, hraw, hoccurs, hkept⟩ := occurs_of_recognized hm
    obtain ⟨hentry, hnot⟩ := AddedTokens.of_mem_under hmem hkept
    refine ⟨hentry, hnot, ?_⟩
    rwa [Occurs, hraw, if_neg Bool.false_ne_true]
  | text piece =>
    obtain ⟨m, hm, rfl⟩ := traced.split_token _ _ _ _ htoken
    obtain ⟨hmem, hnormalized, hoccurs, hkept⟩ := occurs_of_recognized hm
    obtain ⟨hentry, hnot⟩ := AddedTokens.of_mem_under hmem hkept
    refine ⟨hentry, hnot, ?_⟩
    rw [Occurs, if_pos hnormalized]
    exact ⟨piece, hsegment, hoccurs⟩

/-- **The ids of a run** are the library's own or those of such entries. -/
theorem origin_of_run (traced : pl.Traced own) {text : String} {addSpecialTokens : Bool}
    {ids : List UInt32}
    (h : pl.run components (vocabulary.under flags) text addSpecialTokens = .ok ids) :
    ∀ id ∈ ids, own components addSpecialTokens id ∨
      ∃ entry ∈ vocabulary.entries, ¬ flags.Ignores entry ∧
        pl.Occurs components (vocabulary.under flags) text entry ∧ entry.id = id := by
  intro id hid
  refine (traced.process_ids _ _ _ _ h id hid).imp_right ?_
  rintro ⟨entry, part, htoken, hentry⟩
  obtain ⟨hmem, hnot, hoccurs⟩ := occurs_of_token traced htoken
  exact ⟨entry, hmem, hnot, hoccurs, hentry⟩

end Pipeline

/-- Padding adds its own id and no other. -/
theorem mem_pad {params : PaddingParams} {target : Nat} {ids : List UInt32} {id : UInt32}
    (h : id ∈ params.pad target ids) : id ∈ ids ∨ id = params.padId := by
  rw [PaddingParams.pad, PaddingParams.padWith] at h
  split at h
  · exact (List.mem_append.mp h).symm.imp_right List.eq_of_mem_replicate
  · exact (List.mem_append.mp h).imp_right List.eq_of_mem_replicate

/-! ## Public calls -/

section Calls
variable {crates : Crates} {view : PipelineView crates} {rest : view.Rest}
  {added : List AddedToken} {json : Bytes} {t : HFTokenizer crates} {flags : EncodeFlags}
  {addSpecialTokens : Bool}

/-- A JSON tokenizer encodes with the added tokens that the flags leave. -/
theorem encodesWith_under (doc : view.Documented) (h : HFTokenizer.MadeFromJSON json t)
    (hblob : BlobSections view json rest added)
    (haccepted : EncodeOptions.Accepted ⟨addSpecialTokens, flags⟩ true) :
    EncodesWith view t flags rest ((view.vocabularyOf rest added).under flags) := by
  rcases flags_of_accepted haccepted with rfl | rfl | rfl | rfl
  · exact encodesWith_none doc h hblob
  · exact encodesWith_ignoreSpecial doc h hblob
  · exact encodesWith_ignoreAdded doc h hblob (Or.inl rfl)
  · exact encodesWith_ignoreAdded doc h hblob (Or.inr rfl)

/-- No added token that the flags ignore occurs in the text. -/
def FreeOfIgnored (view : PipelineView crates) (rest : view.Rest) (added : List AddedToken)
    (flags : EncodeFlags) (text : Bytes) : Prop :=
  ∀ input, fromUtf8 text = some input → ∀ entry ∈ (view.vocabularyOf rest added).entries,
    flags.Ignores entry →
      ¬ view.pl.Occurs (view.componentsOf rest) (view.vocabularyOf rest added) input entry

/-- The two selected tokenizers encode such a text alike. -/
theorem encode_of_free (doc : view.Documented) {tokenizer tokenizer' : crates.Tokenizer}
    (hparts : HasParts view tokenizer rest ((view.vocabularyOf rest added).under flags))
    (hparts' : HasParts view tokenizer' rest (view.vocabularyOf rest added)) {text : Bytes}
    (hfree : FreeOfIgnored view rest added flags text) {input : String}
    (hinput : fromUtf8 text = some input) (addSpecialTokens : Bool) :
    crates.encode tokenizer input addSpecialTokens =
      crates.encode tokenizer' input addSpecialTokens := by
  simp only [doc.padded.encode_eq, PipelineView.toPaddingView, hparts.components_eq,
    hparts.padding_eq, hparts.vocabulary_eq, hparts'.components_eq, hparts'.padding_eq,
    hparts'.vocabulary_eq, Pipeline.run_under (hfree input hinput)]

/-- **The flags affect nothing else**: on texts without an added token that they ignore,
single and batch calls end as without flags. -/
theorem encode_flags_eq (doc : view.Documented) (lib : SentencePieceLibrary) (cs : CharSign)
    (h : HFTokenizer.MadeFromJSON json t) (hblob : BlobSections view json rest added)
    (haccepted : EncodeOptions.Accepted ⟨addSpecialTokens, flags⟩ true) :
    (∀ text, FreeOfIgnored view rest added flags text → ∀ σ σ',
      ((.huggingFace t : Tokenizer crates lib).encode cs text ⟨addSpecialTokens, flags⟩ σ).1 =
        ((.huggingFace t : Tokenizer crates lib).encode cs text
          ⟨addSpecialTokens, .kNone⟩ σ').1) ∧
    ∀ texts, (∀ text ∈ texts, FreeOfIgnored view rest added flags text) → ∀ σ σ',
      ((.huggingFace t : Tokenizer crates lib).encodeBatch cs texts ⟨addSpecialTokens, flags⟩ σ).1 =
        ((.huggingFace t : Tokenizer crates lib).encodeBatch cs texts
          ⟨addSpecialTokens, .kNone⟩ σ').1 := by
  have hwith := encodesWith_under doc h hblob haccepted
  have hwith' := encodesWith_none doc h hblob
  obtain ⟨box, tokenizer, hhandle, htokenizer, hparts⟩ := hwith.selects
  obtain ⟨box', tokenizer', hhandle', htokenizer', hparts'⟩ := hwith'.selects
  have hvalid := validateEncodeOptions_eq_ok.mpr (hwith.accepted addSpecialTokens)
  have hvalid' := validateEncodeOptions_eq_ok.mpr (hwith'.accepted addSpecialTokens)
  refine ⟨fun text hfree σ σ' => ?_, fun texts hfree σ σ' => ?_⟩
  · have houtcome : t.encodeOutcome text ⟨addSpecialTokens, flags⟩ =
        t.encodeOutcome text ⟨addSpecialTokens, .kNone⟩ := by
      rw [HFTokenizer.encodeOutcome_eq hhandle, HFTokenizer.encodeOutcome_eq hhandle']
      refine congrArg (fun x => HFTokenizer.delivered x >>= _) (bind_congr_ok fun input hin => ?_)
      have hencode := encode_of_free doc hparts hparts' hfree (inputStr_eq_ok.mp hin)
        addSpecialTokens
      simp only [TokenizerWrapper.encode, htokenizer, htokenizer', hencode, ok_bind]
    rw [encode_fst, encode_fst, supportsEncodeFlags, hvalid, hvalid']
    exact houtcome
  · have houtcome : t.encodeBatchOutcome texts ⟨addSpecialTokens, flags⟩ =
        t.encodeBatchOutcome texts ⟨addSpecialTokens, .kNone⟩ := by
      by_cases hne : texts = []
      · subst hne
        rfl
      rw [HFTokenizer.encodeBatchOutcome_eq hhandle hne,
        HFTokenizer.encodeBatchOutcome_eq hhandle' hne]
      refine congrArg (fun x => HFTokenizer.delivered x >>= _) (bind_congr_ok fun inputs hin => ?_)
      have hencode : ∀ input ∈ inputs, crates.encode tokenizer input addSpecialTokens =
          crates.encode tokenizer' input addSpecialTokens := by
        intro input hinput
        obtain ⟨text, htext, hcross⟩ := exists_left_of_mem (mapM_eq_ok.mp hin) hinput
        exact encode_of_free doc hparts hparts' (hfree text htext) (inputStr_eq_ok.mp hcross) _
      have hpadding : view.toPaddingView.padding tokenizer =
          view.toPaddingView.padding tokenizer' :=
        hparts.padding_eq.trans hparts'.padding_eq.symm
      simp only [TokenizerWrapper.encodeBatch, htokenizer, htokenizer', ok_bind,
        doc.padded.encodeBatch_eq, mapM_congr hencode, hpadding]
    rw [encodeBatch_fst cs doc.padded.batchAligned, encodeBatch_fst cs doc.padded.batchAligned,
      supportsEncodeFlags, hvalid, hvalid']
    exact houtcome

variable (view rest added flags addSpecialTokens) in
/-- Where an id of a call may come from. -/
def IdOrigin (own : view.pl.Components → Bool → UInt32 → Prop) (text : Bytes) (id : Int32) :
    Prop :=
  own (view.componentsOf rest) addSpecialTokens id.toUInt32 ∨
    (∃ params, view.paddingOf rest = some params ∧ id.toUInt32 = params.padId) ∨
    ∃ entry ∈ (view.vocabularyOf rest added).entries, ¬ flags.Ignores entry ∧
      entry.id = id.toUInt32 ∧ ∃ input, fromUtf8 text = some input ∧
        view.pl.Occurs (view.componentsOf rest) ((view.vocabularyOf rest added).under flags)
          input entry

section Origin
variable {own : view.pl.Components → Bool → UInt32 → Prop}

/-- The ids of an encoding, before and after it is padded. -/
theorem origin_of_encode (doc : view.Documented) (traced : view.pl.Traced own)
    {tokenizer : crates.Tokenizer}
    (hparts : HasParts view tokenizer rest ((view.vocabularyOf rest added).under flags))
    {text : Bytes} {ids : List UInt32}
    (h : HFTokenizer.Encodes tokenizer addSpecialTokens text ids) :
    ∀ id ∈ ids, own (view.componentsOf rest) addSpecialTokens id ∨
      (∃ params, view.paddingOf rest = some params ∧ id = params.padId) ∨
      ∃ entry ∈ (view.vocabularyOf rest added).entries, ¬ flags.Ignores entry ∧ entry.id = id ∧
        ∃ input, fromUtf8 text = some input ∧ view.pl.Occurs (view.componentsOf rest)
          ((view.vocabularyOf rest added).under flags) input entry := by
  obtain ⟨input, hinput, hencode⟩ := h
  simp only [doc.padded.encode_eq, PipelineView.toPaddingView, hparts.components_eq,
    hparts.padding_eq, hparts.vocabulary_eq] at hencode
  cases hrun : view.pl.run (view.componentsOf rest) ((view.vocabularyOf rest added).under flags)
      input addSpecialTokens with
  | error e =>
    rw [hrun] at hencode
    cases hencode
  | ok raw =>
    rw [hrun] at hencode
    obtain rfl := Except.ok.inj hencode
    intro id hid
    have hraw : id ∈ raw ∨ ∃ params, view.paddingOf rest = some params ∧ id = params.padId := by
      unfold padEncoding at hid
      split at hid
      · exact Or.inl hid
      · rename_i params hparams
        exact (mem_pad hid).imp_right fun h => ⟨params, hparams, h⟩
    rcases hraw with hraw | hpad
    · refine (Pipeline.origin_of_run traced hrun id hraw).imp_right fun h => Or.inr ?_
      obtain ⟨entry, hmem, hnot, hoccurs, hid⟩ := h
      exact ⟨entry, hmem, hnot, hid, input, hinput, hoccurs⟩
    · exact Or.inr (Or.inl hpad)

/-- **Where the ids of a call come from**: each is one of the library's own, the pad id,
or the id of an added token that occurs in its text and that the flags do not ignore. -/
theorem encode_origin (doc : view.Documented) (traced : view.pl.Traced own)
    (lib : SentencePieceLibrary) (cs : CharSign) (h : HFTokenizer.MadeFromJSON json t)
    (hblob : BlobSections view json rest added)
    (haccepted : EncodeOptions.Accepted ⟨addSpecialTokens, flags⟩ true) :
    (∀ text ids σ, ((.huggingFace t : Tokenizer crates lib).encode cs text
        ⟨addSpecialTokens, flags⟩ σ).1 = .ok ids →
      ∀ id ∈ ids, IdOrigin view rest added flags addSpecialTokens own text id) ∧
    ∀ texts rows σ, ((.huggingFace t : Tokenizer crates lib).encodeBatch cs texts
        ⟨addSpecialTokens, flags⟩ σ).1 = .ok rows →
      List.Forall₂ (fun text ids =>
        ∀ id ∈ ids, IdOrigin view rest added flags addSpecialTokens own text id) texts rows := by
  have hwith := encodesWith_under doc h hblob haccepted
  obtain ⟨box, tokenizer, hhandle, htokenizer, hparts⟩ := hwith.selects
  have hvalid := validateEncodeOptions_eq_ok.mpr (hwith.accepted addSpecialTokens)
  have hconvert : ∀ {ids : List UInt32} {out : List Int32}, ids.mapM convertId = .ok out →
      ∀ id ∈ out, id.toUInt32 ∈ ids := fun hout id hid => by
    rw [← toUInt32_of_mapM_convertId hout]
    exact List.mem_map_of_mem hid
  refine ⟨fun text ids σ hids id hid => ?_, fun texts rows σ hrows => ?_⟩
  · rw [encode_fst, supportsEncodeFlags, hvalid] at hids
    obtain ⟨raw, hraw, hout⟩ := (HFTokenizer.encodeOutcome_eq_ok hhandle htokenizer).mp hids
    exact origin_of_encode doc traced hparts hraw _ (hconvert hout id hid)
  · rw [encodeBatch_fst cs doc.padded.batchAligned, supportsEncodeFlags, hvalid] at hrows
    replace hrows : t.encodeBatchOutcome texts ⟨addSpecialTokens, flags⟩ = .ok rows := hrows
    by_cases hne : texts = []
    · subst hne
      obtain rfl := Except.ok.inj hrows
      exact .nil
    obtain ⟨encodings, hencodings, hout⟩ :=
      (HFTokenizer.encodeBatchOutcome_eq_ok doc.padded hhandle htokenizer hne).mp hrows
    have hpadding : view.toPaddingView.padding tokenizer = view.paddingOf rest := hparts.padding_eq
    rw [hpadding] at hout
    have hpadded : List.Forall₂ (fun raw padded => ∀ id ∈ padded, id ∈ raw ∨
        ∃ params, view.paddingOf rest = some params ∧ id = params.padId) encodings
          (padEncodings (view.paddingOf rest) encodings) := by
      cases hparams : view.paddingOf rest with
      | none => exact List.forall₂_same.mpr fun _ _ id hid => Or.inl hid
      | some params =>
        refine List.forall₂_map_right_iff.mpr (List.forall₂_same.mpr fun _ _ id hid => ?_)
        exact (mem_pad hid).imp_right fun h => ⟨params, rfl, h⟩
    refine (forall₂_comp.mpr ⟨encodings, hencodings, forall₂_comp.mpr
      ⟨_, hpadded, mapM_eq_ok.mp hout⟩⟩).imp ?_
    rintro text ids ⟨raw, hraw, padded, hpads, hids⟩ id hid
    rcases hpads _ (hconvert hids id hid) with hmem | hpad
    · exact origin_of_encode doc traced hparts hraw _ hmem
    · exact Or.inr (Or.inl hpad)

end Origin

end Calls

/-! ## Two overlapping tokens -/

namespace SampleLibrary

/-- The ids of the model. -/
def ownIds (model : Vocab) (_ : Bool) (id : UInt32) : Prop :=
  ∃ token, model.lookup token = some id

theorem token_of_mem_splitFrom {pos : Nat} {piece part : List Char} {entry : AddedToken}
    {ms : List (Match AddedToken)} (h : Segment.token entry part ∈ splitFrom pos piece ms) :
    ∃ m ∈ ms, m.entry = entry := by
  induction ms generalizing pos piece with
  | nil => simp [splitFrom] at h
  | cons m ms ih =>
    simp only [splitFrom, List.mem_cons, reduceCtorEq, false_or] at h
    rcases h with h | h
    · exact ⟨m, List.mem_cons_self, (Segment.token.inj h).1.symm⟩
    · obtain ⟨m', hm', hentry⟩ := ih h
      exact ⟨m', List.mem_cons_of_mem m hm', hentry⟩

theorem pipeline_traced : pipeline.Traced ownIds where
  split_token _ _ _ _ h := token_of_mem_splitFrom h
  process_ids := by
    intro model segments addSpecialTokens ids h id hid
    obtain rfl : segments.flatMap (segmentIds model) = ids := Except.ok.inj h
    obtain ⟨segment, hsegment, hid⟩ := List.mem_flatMap.mp hid
    cases segment with
    | token entry piece =>
      exact Or.inr ⟨entry, piece, hsegment, (List.mem_singleton.mp hid).symm⟩
    | text piece =>
      obtain ⟨c, -, hc⟩ := List.mem_filterMap.mp hid
      exact Or.inl ⟨_, hc⟩

theorem overlap_blob : BlobSections view (strBytes overlapJson) (none : Option PaddingParams)
    overlapTokens :=
  ⟨overlapJson, fromUtf8_strBytes _, view_sections sections_overlap⟩

/-- The text `"ca"` has neither `ab` nor `bc` in it. -/
theorem freeOfIgnored_ca (flags : EncodeFlags) :
    FreeOfIgnored view (none : Option PaddingParams) overlapTokens flags (strBytes "ca") := by
  intro input hinput entry hmem _ hoccurs
  obtain rfl := Option.some.inj ((fromUtf8_strBytes "ca").symm.trans hinput)
  replace hmem : entry ∈ overlapTokens := hmem
  simp only [overlapTokens, List.mem_cons, List.not_mem_nil, or_false] at hmem
  rcases hmem with rfl | rfl
  · exact absurd hoccurs.2 (by decide)
  · exact absurd hoccurs.2 (by decide)

end SampleLibrary

open SampleLibrary

theorem encode_flags_eq_ca :
    ((.huggingFace (loaded overlapTokenizer) : Tokenizer crates sentencePiece).encode .signed
        (strBytes "ca") ⟨false, .kIgnoreAddedTokens⟩ Ledger.initial).1 =
      ((.huggingFace (loaded overlapTokenizer) : Tokenizer crates sentencePiece).encode .signed
        (strBytes "ca") ⟨false, .kNone⟩ Ledger.initial).1 :=
  (encode_flags_eq view_documented sentencePiece .signed (loaded_made fromStr_overlap) overlap_blob
    (by decide)).1 _ (freeOfIgnored_ca _) _ _

/-- The first id of `"abc"` is the one of the added token `"ab"`. -/
theorem encode_origin_abc :
    IdOrigin view (none : Option PaddingParams) overlapTokens .kNone false ownIds
      (strBytes "abc") 3 :=
  (encode_origin view_documented pipeline_traced sentencePiece .signed
    (loaded_made fromStr_overlap) overlap_blob (by decide)).1 _ [3, 2] Ledger.initial rfl 3
      List.mem_cons_self

end TokenizersCpp
