import TokenizersCpp.FlagValidation

/-!
# Batch and single calls

`EncodeBatch` and `Encode` reach the backend on different paths: a default loop
over `EncodeImpl`, or the native path through pointer arrays and the library's
`encode_batch`.  On a non-empty list a batch call returns the lists of the single
calls, padded together by the parameters of the JSON if it has any (`BatchPads`,
`batch_parity`): only `BatchLongest` padding makes a difference there.
-/

namespace TokenizersCpp

open Tokenizer Traversal

/-! ## The library's batch, text by text -/

section Library
variable {crates : Crates} {view : PaddingView crates} {padding : Option PaddingParams}

/-- What padding to a target length makes of converted ids: nothing if they are long
enough, and else the pad id is converted, too. -/
def PadsTo (params : PaddingParams) (target : Nat) (own padded : List Int32) : Prop :=
  if target ≤ own.length then
    padded = own
  else
    ∃ padId, convertId params.padId = .ok padId ∧ padded = params.padWith padId target own

/-- What padding a batch makes of the converted ids of its entries. -/
def BatchPads (padding : Option PaddingParams) (singles out : List (List Int32)) : Prop :=
  match padding with
  | none => out = singles
  | some params =>
      List.Forall₂ (PadsTo params (params.padLength (singles.map List.length))) singles out

theorem mapM_pad {params : PaddingParams} {target : Nat} {ids : List UInt32}
    {padded : List Int32} : (params.pad target ids).mapM convertId = .ok padded ↔
      ∃ own, ids.mapM convertId = .ok own ∧ PadsTo params target own padded := by
  rw [PaddingParams.pad]
  by_cases hle : target ≤ ids.length
  · rw [params.padWith_of_le _ hle]
    constructor
    · intro h
      exact ⟨padded, h, by rw [PadsTo, if_pos (by rwa [length_of_mapM h])]⟩
    · rintro ⟨own, hown, hpads⟩
      rw [PadsTo, if_pos (by rwa [length_of_mapM hown])] at hpads
      rw [hown, hpads]
  · rw [params.mapM_padWith (not_le.mp hle)]
    refine exists_congr fun own => and_congr_right fun hown => ?_
    rw [PadsTo, if_neg (by rwa [length_of_mapM hown])]

/-- **A padded batch converts exactly when its entries do** and the pad id does
where it is needed. -/
theorem mapM_padEncodings {encodings : List (List UInt32)} {out : List (List Int32)} :
    (padEncodings padding encodings).mapM (fun ids => ids.mapM convertId) = .ok out ↔
      ∃ singles, encodings.mapM (fun ids => ids.mapM convertId) = .ok singles ∧
        BatchPads padding singles out := by
  cases padding with
  | none =>
    constructor
    · exact fun h => ⟨out, h, rfl⟩
    · rintro ⟨singles, h, rfl⟩
      exact h
  | some params =>
    have hlengths : ∀ singles, encodings.mapM (fun ids => ids.mapM convertId) = .ok singles →
        encodings.map List.length = singles.map List.length := by
      intro singles h
      rw [← List.forall₂_eq_eq_eq, List.forall₂_map_left_iff, List.forall₂_map_right_iff]
      exact (mapM_eq_ok.mp h).imp fun _ _ hown => (length_of_mapM hown).symm
    let target := params.padLength (encodings.map List.length)
    have hentry : Relation.Comp (fun ids own => ids.mapM convertId = .ok own)
        (PadsTo params target) = fun ids padded => (params.pad target ids).mapM convertId =
          .ok padded := by
      funext ids padded
      exact propext mapM_pad.symm
    have hpadded : (padEncodings (some params) encodings).mapM (fun ids => ids.mapM convertId) =
        .ok out ↔ List.Forall₂ (Relation.Comp (fun ids own => ids.mapM convertId = .ok own)
          (PadsTo params target)) encodings out := by
      rw [hentry, ← mapM_eq_ok, padEncodings, List.mapM_map]
      rfl
    rw [hpadded, forall₂_comp]
    refine exists_congr fun singles => ?_
    rw [← mapM_eq_ok]
    refine and_congr_right fun h => ?_
    rw [BatchPads, ← hlengths singles h]

theorem forall₂_padsTo_iff {params : PaddingParams} {target : Nat}
    {singles out : List (List Int32)} (h : ∀ own ∈ singles, target ≤ own.length) :
    List.Forall₂ (PadsTo params target) singles out ↔ out = singles := by
  induction singles generalizing out with
  | nil => exact List.forall₂_nil_left_iff
  | cons own singles ih =>
    have hown : ∀ padded, PadsTo params target own padded ↔ padded = own := by
      intro padded
      rw [PadsTo, if_pos (h own List.mem_cons_self)]
    simp only [List.forall₂_cons_left_iff, hown, ih fun o ho => h o (List.mem_cons_of_mem _ ho)]
    exact ⟨fun ⟨_, _, hb, hu, hout⟩ => hb ▸ hu ▸ hout, fun hout => ⟨_, _, rfl, rfl, hout⟩⟩

/-- **Padding together changes nothing** when every list is padded already, and
`BatchLongest` finds lists of one length. -/
theorem batchPads_iff {singles out : List (List Int32)}
    (hpadded : ∀ params, padding = some params → ∀ own ∈ singles,
      params.padLength [own.length] ≤ own.length)
    (halike : ∀ params, padding = some params → params.strategy = .batchLongest →
      ∀ own ∈ singles, ∀ own' ∈ singles, own.length = own'.length) :
    BatchPads padding singles out ↔ out = singles := by
  cases padding with
  | none => exact Iff.rfl
  | some params =>
    refine forall₂_padsTo_iff fun own hown => ?_
    rw [params.padLength_eq (by simpa using List.ne_nil_of_mem hown) fun hstrategy l hl => ?_]
    · exact hpadded params rfl own hown
    · obtain ⟨own', hown', rfl⟩ := List.mem_map.mp hl
      exact halike params rfl hstrategy own' hown' own hown

end Library

/-! ## The two paths into Rust -/

namespace HFTokenizer

variable {crates : Crates} {view : PaddingView crates} (doc : view.Documented)
  {t : HFTokenizer crates} {box : RustBox (TokenizerWrapper crates)}
  (hhandle : t.handle = some box) {options : EncodeOptions} {tokenizer : crates.Tokenizer}
  (htokenizer : box.value.tokenizerForEncode options.flags.bits = .ok tokenizer)

/-- The text crosses the boundary and the library encodes it as `ids`. -/
def Encodes (tokenizer : crates.Tokenizer) (addSpecialTokens : Bool) (text : Bytes)
    (ids : List UInt32) : Prop :=
  ∃ input, fromUtf8 text = some input ∧ crates.encode tokenizer input addSpecialTokens = .ok ids

include doc in
theorem Encodes.padded {addSpecialTokens : Bool} {text : Bytes} {ids : List UInt32}
    (h : Encodes tokenizer addSpecialTokens text ids) :
    ∃ unpadded, ids = padEncoding (view.padding tokenizer) unpadded := by
  obtain ⟨input, -, hencode⟩ := h
  exact doc.padded_of_encode hencode

include hhandle htokenizer in
theorem encodeOutcome_eq_ok {text : Bytes} {out : List Int32} :
    t.encodeOutcome text options = .ok out ↔
      ∃ ids, Encodes tokenizer options.addSpecialTokens text ids ∧
        ids.mapM convertId = .ok out := by
  rw [encodeOutcome_eq hhandle, bind_eq_ok]
  refine exists_congr fun ids => and_congr_left fun _ => ?_
  rw [delivered_eq_ok, bind_eq_ok]
  refine exists_congr fun input => and_congr inputStr_eq_ok ?_
  rw [TokenizerWrapper.encode_eq_ok, htokenizer]
  exact ⟨fun ⟨_, h, hencode⟩ => Except.ok.inj h ▸ hencode, fun hencode => ⟨_, rfl, hencode⟩⟩

include doc hhandle htokenizer in
theorem encodeBatchOutcome_eq_ok {texts : List Bytes} (hne : texts ≠ [])
    {out : List (List Int32)} :
    t.encodeBatchOutcome texts options = .ok out ↔
      ∃ encodings, List.Forall₂ (Encodes tokenizer options.addSpecialTokens) texts encodings ∧
        (padEncodings (view.padding tokenizer) encodings).mapM (fun ids => ids.mapM convertId) =
          .ok out := by
  have hlibrary : ∀ inputs batch,
      box.value.encodeBatch inputs options.addSpecialTokens options.flags.bits = .ok batch ↔
        ∃ encodings, List.Forall₂ (fun input ids =>
            crates.encode tokenizer input options.addSpecialTokens = .ok ids) inputs encodings ∧
          padEncodings (view.padding tokenizer) encodings = batch := by
    intro inputs batch
    rw [TokenizerWrapper.encodeBatch_eq_ok, htokenizer]
    simp only [← mapM_eq_ok, Except.ok.injEq, exists_eq_left', doc.encodeBatch_eq]
    cases inputs.mapM fun input => crates.encode tokenizer input options.addSpecialTokens with
    | error e => exact ⟨nofun, nofun⟩
    | ok encodings =>
      exact ⟨fun h => ⟨encodings, rfl, Except.ok.inj h⟩,
        fun ⟨_, h, hbatch⟩ => congrArg Except.ok (Except.ok.inj h ▸ hbatch)⟩
  have hinputs : ∀ inputs, (texts.mapM fun text =>
      inputStr crates.utf8Error (some text) text.length "Batch encode input") = .ok inputs ↔
        List.Forall₂ (fun text input => fromUtf8 text = some input) texts inputs := by
    intro inputs
    simp only [mapM_eq_ok, inputStr_eq_ok]
  rw [encodeBatchOutcome_eq hhandle hne, bind_eq_ok]
  simp only [delivered_eq_ok, bind_eq_ok, hlibrary, hinputs]
  constructor
  · rintro ⟨batch, ⟨inputs, hin, encodings, henc, rfl⟩, hout⟩
    exact ⟨encodings, forall₂_comp.mpr ⟨inputs, hin, henc⟩, hout⟩
  · rintro ⟨encodings, hR, hout⟩
    obtain ⟨inputs, hin, henc⟩ := forall₂_comp.mp hR
    exact ⟨_, ⟨inputs, hin, encodings, henc, rfl⟩, hout⟩

include doc in
/-- The wrapper keeps the padding of the JSON in both of its views. -/
theorem padding_of_tokenizerForEncode {wrapper : TokenizerWrapper crates} {json : String}
    {flags : UInt32} (hload : TokenizerWrapper.fromStr crates json = .ok wrapper)
    (h : wrapper.tokenizerForEncode flags = .ok tokenizer) :
    view.padding tokenizer = view.padding wrapper.tokenizer := by
  obtain ⟨base, special, added, -, hspecial, hadded, rfl⟩ :=
    (TokenizerWrapper.fromStr_eq_ok crates).mp hload
  rcases TokenizerWrapper.of_tokenizerForEncode _ h with
    rfl | ⟨variants, hvariants, rfl | rfl⟩
  · rfl
  · obtain rfl := Option.some.inj hvariants
    exact doc.withAddedVocabulary_padding _ _ _ hadded
  · obtain rfl := Option.some.inj hvariants
    exact doc.setEncodeSpecialTokens_padding _ _ _ hspecial

include doc in
/-- A byte-level BPE tokenizer has no padding. -/
theorem padding_of_byteLevelBpe {wrapper : TokenizerWrapper crates}
    {vocab merges addedTokens : String}
    (hload : TokenizerWrapper.byteLevelBpeFromStr crates vocab merges addedTokens = .ok wrapper) :
    view.padding wrapper.tokenizer = none := by
  obtain ⟨-, bpe, byteLevel, hbase⟩ := TokenizerWrapper.byteLevelBpeFromStr_ok crates hload
  rw [hbase, doc.withDecoder_padding, doc.withPreTokenizer_padding, doc.tokenizerNew_padding]

end HFTokenizer

/-! ## Parity -/

section Parity
variable {crates : Crates} {lib : SentencePieceLibrary} (view : PaddingView crates)
  (cs : CharSign)

/-- The padding parameters that a tokenizer was loaded with. -/
def loadedPadding : Tokenizer crates lib → Option PaddingParams
  | .huggingFace t => t.handle.bind fun box => view.padding box.value.tokenizer
  | _ => none

/-- `BatchLongest` padding, if the tokenizer has it, finds lists of one length:
any two texts of the list that `Encode` returns on give equally many ids. -/
def PadsAlike (t : Tokenizer crates lib) (texts : List Bytes) (options : EncodeOptions) : Prop :=
  ∀ params, loadedPadding view t = some params → params.strategy = .batchLongest →
    ∀ text ∈ texts, ∀ text' ∈ texts, ∀ ids ids',
      (∀ σ, (t.encode cs text options σ).1 = .ok ids) →
        (∀ σ, (t.encode cs text' options σ).1 = .ok ids') → ids.length = ids'.length

variable {view cs} {t : Tokenizer crates lib} {options : EncodeOptions}

theorem encode_eq_ok (haccepted : options.Accepted t.supportsEncodeFlags) {text : Bytes}
    {ids : List Int32} : (∀ σ, (t.encode cs text options σ).1 = .ok ids) ↔
      t.encodeOutcome cs text options = .ok ids := by
  simp only [encode_fst, validateEncodeOptions_eq_ok.mpr haccepted]
  exact ⟨fun h => h Ledger.initial, fun h _ => h⟩

/-- A rejected call returns for no text. -/
theorem accepted_of_encode {text : Bytes} {ids : List Int32}
    (h : ∀ σ, (t.encode cs text options σ).1 = .ok ids) :
    options.Accepted t.supportsEncodeFlags := by
  by_contra hrejected
  obtain ⟨e, -, hsingle, -⟩ := rejected_code cs t hrejected
  have hids := h Ledger.initial
  rw [hsingle] at hids
  cases hids

/-- A Hugging Face object selects a tokenizer with the padding it was loaded with. -/
theorem selects_of_made (doc : view.Documented) {t : HFTokenizer crates}
    (hmade : MadeByFactory cs (.huggingFace t : Tokenizer crates lib))
    (haccepted : options.Accepted t.supportsEncodeFlags) :
    ∃ box tokenizer, t.handle = some box ∧
      box.value.tokenizerForEncode options.flags.bits = .ok tokenizer ∧
        view.padding tokenizer = view.padding box.value.tokenizer := by
  have hproduced : t.Produced := by
    cases hmade with
    | json h => exact .json h
    | byteLevelBPE h => exact .byteLevelBPE h
  obtain ⟨box, hhandle, hsupports⟩ := hproduced.aligned
  have hselect : ∃ tokenizer, box.value.tokenizerForEncode options.flags.bits = .ok tokenizer := by
    rcases validate_agrees hsupports options with ⟨-, htokenizer⟩ | ⟨e, abort, he, -, -⟩
    · exact htokenizer
    · rw [validateEncodeOptions_eq_ok.mpr haccepted] at he
      cases he
  obtain ⟨tokenizer, htokenizer⟩ := hselect
  refine ⟨box, tokenizer, hhandle, htokenizer, ?_⟩
  cases hmade with
  | json h =>
    obtain ⟨text, box', -, hload, rfl⟩ := h.wrapper
    obtain rfl := Option.some.inj hhandle
    exact HFTokenizer.padding_of_tokenizerForEncode doc hload htokenizer
  | byteLevelBPE h =>
    obtain ⟨_, _, _, box', hload, rfl⟩ := h.wrapper
    obtain rfl := Option.some.inj hhandle
    rcases TokenizerWrapper.of_tokenizerForEncode _ htokenizer with rfl | ⟨variants, hvariants, -⟩
    · rfl
    · rw [(TokenizerWrapper.byteLevelBpeFromStr_ok crates hload).1] at hvariants
      cases hvariants

/-- **Whatever the padding is**, the backend's batch call returns the padded lists of
its single calls. -/
theorem encodeBatchOutcome_padded (doc : view.Documented) (hmade : t.MadeByFactory cs)
    (haccepted : options.Accepted t.supportsEncodeFlags) {texts : List Bytes} (hne : texts ≠ [])
    {out : List (List Int32)} :
    t.encodeBatchOutcome cs texts options = .ok out ↔
      ∃ singles, List.Forall₂ (fun text ids => t.encodeOutcome cs text options = .ok ids)
        texts singles ∧ BatchPads (loadedPadding view t) singles out := by
  cases t with
  | sentencePiece t =>
    simp only [← mapM_eq_ok]
    exact ⟨fun h => ⟨out, h, rfl⟩, fun ⟨singles, h, hout⟩ => hout ▸ h⟩
  | rwkvWorld t =>
    simp only [← mapM_eq_ok]
    exact ⟨fun h => ⟨out, h, rfl⟩, fun ⟨singles, h, hout⟩ => hout ▸ h⟩
  | huggingFace t =>
    obtain ⟨box, tokenizer, hhandle, htokenizer, hpadding⟩ := selects_of_made doc hmade haccepted
    have hloaded : loadedPadding view (.huggingFace t : Tokenizer crates lib) =
        view.padding tokenizer := by
      rw [loadedPadding, hhandle, hpadding]
      rfl
    have hsingle : ∀ text ids, (Tokenizer.huggingFace t : Tokenizer crates lib).encodeOutcome cs
        text options = .ok ids ↔
          ∃ raw, HFTokenizer.Encodes tokenizer options.addSpecialTokens text raw ∧
            raw.mapM convertId = .ok ids :=
      fun text ids => HFTokenizer.encodeOutcome_eq_ok hhandle htokenizer
    refine (HFTokenizer.encodeBatchOutcome_eq_ok doc hhandle htokenizer hne).trans ?_
    simp only [hsingle, hloaded, mapM_padEncodings]
    constructor
    · rintro ⟨encodings, hR, singles, hsingles, hpads⟩
      exact ⟨singles, forall₂_comp.mpr ⟨encodings, hR, mapM_eq_ok.mp hsingles⟩, hpads⟩
    · rintro ⟨singles, hR, hpads⟩
      obtain ⟨encodings, hR, hsingles⟩ := forall₂_comp.mp hR
      exact ⟨encodings, hR, singles, mapM_eq_ok.mpr hsingles, hpads⟩

/-- A list that a single call returns is padded already. -/
theorem padLength_of_encode (doc : view.Documented) (hmade : t.MadeByFactory cs) {text : Bytes}
    {own : List Int32} (h : ∀ σ, (t.encode cs text options σ).1 = .ok own)
    {params : PaddingParams} (hparams : loadedPadding view t = some params) :
    params.padLength [own.length] ≤ own.length := by
  have haccepted := accepted_of_encode h
  rw [encode_eq_ok haccepted] at h
  cases t with
  | sentencePiece t => cases hparams
  | rwkvWorld t => cases hparams
  | huggingFace t =>
    obtain ⟨box, tokenizer, hhandle, htokenizer, hpadding⟩ := selects_of_made doc hmade haccepted
    obtain ⟨ids, hids, hown⟩ := (HFTokenizer.encodeOutcome_eq_ok hhandle htokenizer).mp h
    obtain ⟨unpadded, rfl⟩ := hids.padded doc
    have hloaded : view.padding tokenizer = some params := by
      rw [hpadding, ← hparams, loadedPadding, hhandle]
      rfl
    rw [hloaded] at hown
    rw [length_of_mapM hown]
    exact params.padLength_padEncoding_le unpadded

/-- **What a batch call returns**: the padded lists of the single calls. -/
theorem encodeBatch_eq_ok (doc : view.Documented) (hmade : t.MadeByFactory cs)
    {texts : List Bytes} (hne : texts ≠ []) {σ : Ledger} {out : List (List Int32)} :
    (t.encodeBatch cs texts options σ).1 = .ok out ↔
      ∃ singles, List.Forall₂ (fun text ids => ∀ σ, (t.encode cs text options σ).1 = .ok ids)
        texts singles ∧ BatchPads (loadedPadding view t) singles out := by
  by_cases haccepted : options.Accepted t.supportsEncodeFlags
  · rw [encodeBatch_fst cs doc.batchAligned, validateEncodeOptions_eq_ok.mpr haccepted]
    simp only [encode_eq_ok haccepted]
    exact encodeBatchOutcome_padded doc hmade haccepted hne
  · obtain ⟨e, -, -, hlist⟩ := rejected_code cs t haccepted
    rw [hlist]
    refine iff_of_false (fun h => by cases h) ?_
    rintro ⟨singles, hsingles, -⟩
    obtain ⟨text, htext⟩ := List.exists_mem_of_ne_nil texts hne
    obtain ⟨ids, hids⟩ := exists_forall₂.mp ⟨singles, hsingles⟩ text htext
    exact haccepted (accepted_of_encode hids)

variable (cs) in
/-- **Parity** of a batch call with the single calls: it returns exactly when they
all return, and then the same lists in order. -/
def Parity (t : Tokenizer crates lib) (texts : List Bytes) (options : EncodeOptions) : Prop :=
  ∀ σ, ((∃ out, (t.encodeBatch cs texts options σ).1 = .ok out) ↔
      ∀ text ∈ texts, ∃ ids, ∀ σ, (t.encode cs text options σ).1 = .ok ids) ∧
    ∀ out, (t.encodeBatch cs texts options σ).1 = .ok out →
      List.Forall₂ (fun text ids => ∀ σ, (t.encode cs text options σ).1 = .ok ids) texts out

/-- **Batch and single calls agree**, but for padding, which only a JSON brings.
The empty batch returns the empty list exactly when the options are accepted.  Any
other batch returns exactly the padded lists of the single calls; and there is
parity, unless `BatchLongest` padding meets lists of different lengths. -/
theorem batch_parity (doc : view.Documented) (hmade : t.MadeByFactory cs)
    (options : EncodeOptions) (texts : List Bytes) :
    (∀ params, loadedPadding view t = some params →
      ∃ json t', t = .huggingFace t' ∧ HFTokenizer.MadeFromJSON json t') ∧
    (texts = [] → ∀ σ out, (t.encodeBatch cs texts options σ).1 = .ok out ↔
      options.Accepted t.supportsEncodeFlags ∧ out = []) ∧
    (texts ≠ [] → ∀ σ out, (t.encodeBatch cs texts options σ).1 = .ok out ↔
      ∃ singles, List.Forall₂ (fun text ids => ∀ σ, (t.encode cs text options σ).1 = .ok ids)
        texts singles ∧ BatchPads (loadedPadding view t) singles out) ∧
    (texts ≠ [] → PadsAlike view cs t texts options → Parity cs t texts options) := by
  refine ⟨fun params hparams => ?_, ?_, fun hne σ out => encodeBatch_eq_ok doc hmade hne, ?_⟩
  · cases hmade with
    | @json json t' h => exact ⟨json, t', rfl, h⟩
    | byteLevelBPE h =>
      obtain ⟨_, _, _, box, hload, rfl⟩ := h.wrapper
      have hnone := HFTokenizer.padding_of_byteLevelBpe doc hload
      rw [loadedPadding, Option.bind_some, hnone] at hparams
      cases hparams
    | sentencePiece modelBlob => cases hparams
    | rwkvWorld h => cases hparams
  · rintro rfl σ out
    by_cases haccepted : options.Accepted t.supportsEncodeFlags
    · have hnil : t.encodeBatchOutcome cs [] options = .ok [] := by
        cases t <;> rfl
      rw [encodeBatch_fst cs doc.batchAligned, validateEncodeOptions_eq_ok.mpr haccepted]
      show t.encodeBatchOutcome cs [] options = _ ↔ _
      rw [hnil]
      exact ⟨fun h => ⟨haccepted, (Except.ok.inj h).symm⟩, fun h => congrArg Except.ok h.2.symm⟩
    · obtain ⟨e, -, -, hlist⟩ := rejected_code cs t haccepted
      rw [hlist]
      exact iff_of_false (fun h => by cases h) fun h => haccepted h.1
  · intro hne halike σ
    have hout : ∀ out, (t.encodeBatch cs texts options σ).1 = .ok out ↔ List.Forall₂
        (fun text ids => ∀ σ, (t.encode cs text options σ).1 = .ok ids) texts out := by
      intro out
      have hpads : ∀ {singles}, List.Forall₂ (fun text ids => ∀ σ,
          (t.encode cs text options σ).1 = .ok ids) texts singles →
            (BatchPads (loadedPadding view t) singles out ↔ out = singles) := by
        intro singles hsingles
        refine batchPads_iff (fun params hparams own hown => ?_)
          fun params hparams hlongest own hown own' hown' => ?_
        · obtain ⟨text, -, h⟩ := exists_left_of_mem hsingles hown
          exact padLength_of_encode doc hmade h hparams
        · obtain ⟨text, htext, h⟩ := exists_left_of_mem hsingles hown
          obtain ⟨text', htext', h'⟩ := exists_left_of_mem hsingles hown'
          exact halike params hparams hlongest text htext text' htext' own own' h h'
      rw [encodeBatch_eq_ok doc hmade hne]
      constructor
      · rintro ⟨singles, hsingles, h⟩
        obtain rfl := (hpads hsingles).mp h
        exact hsingles
      · exact fun hsingles => ⟨out, hsingles, (hpads hsingles).mpr rfl⟩
    simp only [hout]
    exact ⟨exists_forall₂, fun out h => h⟩

/-- The plain JSON has no padding. -/
theorem batch_parity_plain :
    Parity .signed (.huggingFace (SampleLibrary.loaded SampleLibrary.plainTokenizer) :
      Tokenizer SampleLibrary.crates SampleLibrary.sentencePiece)
        [strBytes "a", strBytes "ab"] {} :=
  (batch_parity SampleLibrary.view_documented.padded
    (.json (SampleLibrary.loaded_made SampleLibrary.fromStr_plain)) {} _).2.2.2
      (List.cons_ne_nil _ _) fun _ hparams => by cases hparams

/-- With `BatchLongest` padding the batch of `"a"` and `"ab"` pads its first entry,
and `Encode("a")` does not; and the empty batch rejects an unknown flag bit, though
no text of it is rejected. -/
theorem batch_parity_fails :
    (HFTokenizer.MadeFromJSON (strBytes SampleLibrary.paddedJson)
        (SampleLibrary.loaded SampleLibrary.paddedTokenizer) ∧
      ¬ Parity .signed (.huggingFace (SampleLibrary.loaded SampleLibrary.paddedTokenizer) :
        Tokenizer SampleLibrary.crates SampleLibrary.sentencePiece)
          [strBytes "a", strBytes "ab"] {}) ∧
    HFTokenizer.MadeFromJSON (strBytes SampleLibrary.plainJson)
        (SampleLibrary.loaded SampleLibrary.plainTokenizer) ∧
      ¬ Parity .signed (.huggingFace (SampleLibrary.loaded SampleLibrary.plainTokenizer) :
        Tokenizer SampleLibrary.crates SampleLibrary.sentencePiece) [] ⟨false, ⟨4⟩⟩ := by
  refine ⟨⟨SampleLibrary.loaded_made SampleLibrary.fromStr_padded, ?_⟩,
    SampleLibrary.loaded_made SampleLibrary.fromStr_plain, ?_⟩
  · intro h
    have hbatch : ((.huggingFace (SampleLibrary.loaded SampleLibrary.paddedTokenizer) :
        Tokenizer SampleLibrary.crates SampleLibrary.sentencePiece).encodeBatch .signed
          (["a", "ab"].map strBytes) {} Ledger.initial).1 = .ok [[0, 5], [0, 1]] := by
      rw [encodeBatch_fst _ SampleLibrary.view_documented.padded.batchAligned]
      show (SampleLibrary.loaded SampleLibrary.paddedTokenizer).encodeBatchOutcome
        (["a", "ab"].map strBytes) {} = _
      rw [HFTokenizer.encodeBatchOutcome_strBytes (SampleLibrary.loaded_handle _)
        (List.cons_ne_nil _ _)]
      decide
    have hsingle : ((.huggingFace (SampleLibrary.loaded SampleLibrary.paddedTokenizer) :
        Tokenizer SampleLibrary.crates SampleLibrary.sentencePiece).encode .signed
          (strBytes "a") {} Ledger.initial).1 = .ok [0] := by
      rw [encode_fst]
      show (SampleLibrary.loaded SampleLibrary.paddedTokenizer).encodeOutcome (strBytes "a") {} = _
      rw [HFTokenizer.encodeOutcome_strBytes (SampleLibrary.loaded_handle _)]
      decide
    cases (h Ledger.initial).2 _ hbatch with
    | cons hhead _ =>
      rw [hhead] at hsingle
      cases hsingle
  · intro h
    obtain ⟨out, hout⟩ := (h Ledger.initial).1.mpr fun text htext => by cases htext
    cases hout

end Parity

end TokenizersCpp
