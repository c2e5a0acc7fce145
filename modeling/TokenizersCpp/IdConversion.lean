import TokenizersCpp.BpeVocabulary
import TokenizersCpp.FlagValidation

/-!
# Token ids across the boundary

Rust's ids are `u32`, the ids of the C++ interface are `int32_t`.  `ConvertResult`
and `tokenizers_token_to_id` check that an id fits, so what they return is Rust's id
(`encode_ids`, `tokenToId_exact`), and it comes back as the same id.  `Decode` and
`IdToToken` reinterpret whatever they are given: a negative `int32_t` becomes an id
above `INT32_MAX`, and stands for the token with that id, exactly when there is one
(`id_conversion_iff`).
-/

namespace TokenizersCpp

open InsertionLoop Traversal

/-! ## Conversions -/

theorem toInt_toInt32 {id : UInt32} (h : id.toNat < 2 ^ 31) : id.toInt32.toInt = id.toNat := by
  have hbits : id.toInt32.toInt = id.toBitVec.toInt := rfl
  have hnat : id.toBitVec.toNat = id.toNat := rfl
  rw [hbits, BitVec.toInt_eq_toNat_cond, hnat]
  omega

/-- An `int32` is not negative when its bits are a `u32` below the sign bit. -/
theorem nonneg_iff_toUInt32 {id : Int32} : 0 ≤ id ↔ id.toUInt32.toNat < 2 ^ 31 := by
  have hbits : id.toInt = id.toUInt32.toBitVec.toInt := rfl
  have hnat : id.toUInt32.toBitVec.toNat = id.toUInt32.toNat := rfl
  have hlt := id.toUInt32.toNat_lt
  rw [Int32.le_iff_toInt_le, Int32.toInt_zero, hbits, BitVec.toInt_eq_toNat_cond, hnat]
  split <;> omega

theorem le_int32Max_iff {id : UInt32} : ¬ 0x7fffffff < id ↔ id.toNat < 2 ^ 31 := by
  rw [UInt32.lt_iff_toNat_lt]
  change ¬ 0x7fffffff < id.toNat ↔ _
  omega

/-- Ids that fit are converted one by one. -/
theorem mapM_convertId_ok {ids : List UInt32} (h : ∀ id ∈ ids, id.toNat < 2 ^ 31) :
    ids.mapM convertId = .ok (ids.map UInt32.toInt32) := by
  rw [mapM_eq_ok, List.forall₂_map_right_iff, List.forall₂_same]
  exact fun id hid => if_neg (le_int32Max_iff.mpr (h id hid))

/-- The converted ids still have the bits of the ids. -/
theorem toUInt32_of_mapM_convertId {ids : List UInt32} {out : List Int32}
    (h : ids.mapM convertId = .ok out) : out.map Int32.toUInt32 = ids := by
  induction mapM_eq_ok.mp h with
  | nil => rfl
  | cons hid _ ih =>
    unfold convertId at hid
    split at hid
    · cases hid
    · rw [List.map_cons, ← Except.ok.inj hid, UInt32.toUInt32_toInt32]
      exact congrArg _ (ih (mapM_eq_ok.mpr ‹_›))

/-! ## The vocabulary behind the ids -/

/-- What the crate documents of the two lookups of a tokenizer, by its vocabulary. -/
structure Crates.LooksUp (crates : Crates) (tokenizer : crates.Tokenizer) (vocabulary : Vocab) :
    Prop where
  tokenToId_eq : ∀ token, crates.tokenToId tokenizer token = vocabulary.lookup token
  lookup_of_idToToken : ∀ {id token}, crates.idToToken tokenizer id = some token →
    vocabulary.lookup token = some id
  idToToken_of_lookup : ∀ {token id}, vocabulary.lookup token = some id →
    ∃ token', crates.idToToken tokenizer id = some token'

/-- What the crate documents of `decode`: an id without a token is skipped. -/
def Crates.DecodesTokens (crates : Crates) : Prop :=
  ∀ tokenizer ids ids' skipSpecialTokens,
    ids.filterMap (crates.idToToken tokenizer) = ids'.filterMap (crates.idToToken tokenizer) →
      crates.decode tokenizer ids skipSpecialTokens = crates.decode tokenizer ids' skipSpecialTokens

variable {crates : Crates}

theorem Crates.LooksUp.idToToken_iff {tokenizer : crates.Tokenizer} {vocabulary : Vocab}
    (hlookups : crates.LooksUp tokenizer vocabulary) (hdistinct : vocabulary.Distinct)
    {id : UInt32} {token : String} :
    crates.idToToken tokenizer id = some token ↔ vocabulary.lookup token = some id := by
  refine ⟨hlookups.lookup_of_idToToken, fun h => ?_⟩
  obtain ⟨token', h'⟩ := hlookups.idToToken_of_lookup h
  rw [h', hdistinct token' token id (hlookups.lookup_of_idToToken h') h]

namespace HFTokenizer

/-! ## Ids that Rust emits -/

section Encode
variable {t : HFTokenizer crates} {box : RustBox (TokenizerWrapper crates)} {text : Bytes}
  {options : EncodeOptions}

/-- Flags that Rust accepts pass the check in front of it. -/
theorem accepted_of_encodeInput (haligned : t.Aligned) {ids : List UInt32}
    (h : encodeInput t.handle (some text) text.length (intOfBool options.addSpecialTokens)
      options.flags.bits = .ok ids) :
    validateEncodeOptions options t.supportsEncodeFlags = .ok () := by
  obtain ⟨box, hhandle, hsupports⟩ := haligned
  rw [hhandle] at h
  obtain ⟨wrapper, hwrapper, h⟩ := bind_eq_ok.mp h
  obtain rfl : box.value = wrapper := Except.ok.inj hwrapper
  obtain ⟨input, -, hencode⟩ := bind_eq_ok.mp h
  obtain ⟨tokenizer, htokenizer, -⟩ := TokenizerWrapper.encode_eq_ok.mp hencode
  rcases validate_agrees hsupports options with ⟨hok, -⟩ | ⟨e, abort, -, herror, -⟩
  · exact hok
  · rw [htokenizer] at herror
    cases herror

/-- **`Encode` converts the ids that Rust emits**, or reports one that does not fit. -/
theorem encode_ids (lib : SentencePieceLibrary) (cs : CharSign) (haligned : t.Aligned)
    {ids : List UInt32}
    (h : encodeInput t.handle (some text) text.length (intOfBool options.addSpecialTokens)
      options.flags.bits = .ok ids) (σ : Ledger) :
    ((∀ id ∈ ids, id.toNat < 2 ^ 31) ∧
      ((.huggingFace t : Tokenizer crates lib).encode cs text options σ).1 =
        .ok (ids.map UInt32.toInt32)) ∨
    (∃ id ∈ ids, 2 ^ 31 ≤ id.toNat) ∧
      ∃ e, ((.huggingFace t : Tokenizer crates lib).encode cs text options σ).1 = .error e ∧
        e.code = some .kInternal := by
  have hresult : ((.huggingFace t : Tokenizer crates lib).encode cs text options σ).1 =
      ids.mapM convertId := by
    rw [Tokenizer.encode_fst, Tokenizer.supportsEncodeFlags, accepted_of_encodeInput haligned h]
    show t.encodeOutcome text options = _
    rw [encodeOutcome, h]
    rfl
  by_cases hfits : ∀ id ∈ ids, id.toNat < 2 ^ 31
  · exact Or.inl ⟨hfits, hresult.trans (mapM_convertId_ok hfits)⟩
  · push Not at hfits
    have hbig : ∃ id ∈ ids, 0x7fffffff < id := by
      obtain ⟨id, hid, hle⟩ := hfits
      exact ⟨id, hid, not_not.mp fun hnot => by have := le_int32Max_iff.mp hnot; omega⟩
    obtain ⟨e, he, hcode⟩ := mapM_convertId_error hbig
    exact Or.inr ⟨hfits, e, hresult.trans he, hcode⟩

/-- **A list that `Encode` returned reaches Rust's `decode`** as the ids that Rust
emitted. -/
theorem decode_of_encode (lib : SentencePieceLibrary) (cs : CharSign)
    (hhandle : t.handle = some box) {σ : Ledger} {out : List Int32}
    (h : ((.huggingFace t : Tokenizer crates lib).encode cs text options σ).1 = .ok out) :
    ∃ ids, encodeInput t.handle (some text) text.length (intOfBool options.addSpecialTokens)
        options.flags.bits = .ok ids ∧ out.map Int32.toUInt32 = ids ∧
      ∀ skipSpecialTokens, (t.decode out skipSpecialTokens).1 =
        some (strBytes (box.value.decodedText ids skipSpecialTokens)) := by
  rw [Tokenizer.encode_fst] at h
  obtain ⟨-, -, h⟩ := bind_eq_ok.mp h
  obtain ⟨ids, hids, hconvert⟩ := bind_eq_ok.mp (show t.encodeOutcome text options = _ from h)
  have hback := toUInt32_of_mapM_convertId hconvert
  exact ⟨ids, delivered_eq_ok.mp hids, hback, fun skip => by rw [decode_fst hhandle, hback]⟩

end Encode

/-! ## Ids that C++ passes -/

section Lookup
variable {t : HFTokenizer crates} {box : RustBox (TokenizerWrapper crates)} {vocabulary : Vocab}
  (hhandle : t.handle = some box) (hlookups : crates.LooksUp box.value.tokenizer vocabulary)
include hhandle hlookups

/-- **`TokenToId` returns the exact id**, or -1 for a token without an id that fits. -/
theorem tokenToId_exact (token : Bytes) :
    (∃ text id, fromUtf8 token = some text ∧ vocabulary.lookup text = some id ∧
        (t.tokenToId token).toInt = id.toNat) ∨
      t.tokenToId token = -1 ∧ ∀ text id, fromUtf8 token = some text →
        vocabulary.lookup text = some id → 2 ^ 31 ≤ id.toNat := by
  rw [tokenToId_eq hhandle]
  cases htext : fromUtf8 token with
  | none => exact Or.inr ⟨rfl, nofun⟩
  | some text =>
    rw [Option.bind_some, hlookups.tokenToId_eq]
    cases hid : vocabulary.lookup text with
    | none =>
      refine Or.inr ⟨rfl, ?_⟩
      rintro _ id ⟨⟩ h
      rw [hid] at h
      cases h
    | some id =>
      rw [Option.bind_some, i32TryFrom]
      by_cases hfits : id.toNat < 2 ^ 31
      · rw [if_pos hfits]
        exact Or.inl ⟨text, id, rfl, hid, toInt_toInt32 hfits⟩
      · rw [if_neg hfits]
        refine Or.inr ⟨rfl, ?_⟩
        rintro _ id' ⟨⟩ h
        obtain rfl := Option.some.inj (hid.symm.trans h)
        omega

end Lookup

section Sign
variable {t : HFTokenizer crates} {box : RustBox (TokenizerWrapper crates)} {vocabulary : Vocab}

/-- The tokens that `decode` finds for the ids. -/
def foundTokens (box : RustBox (TokenizerWrapper crates)) (ids : List Int32) : List String :=
  (ids.map Int32.toUInt32).filterMap (crates.idToToken box.value.tokenizer)

/-- `Decode` treats the id as unknown: it finds no token for it, and its text does not
depend on it. -/
def DecodeSkips (t : HFTokenizer crates) (box : RustBox (TokenizerWrapper crates)) (id : Int32) :
    Prop :=
  ∀ before after : List Int32,
    foundTokens box (before ++ id :: after) = foundTokens box (before ++ after) ∧
      ∀ skipSpecialTokens, (t.decode (before ++ id :: after) skipSpecialTokens).1 =
        (t.decode (before ++ after) skipSpecialTokens).1

/-- The sign of an id is respected: a negative id denotes no token, and the token of an
id has that id. -/
structure RespectsSign (t : HFTokenizer crates) (box : RustBox (TokenizerWrapper crates))
    (id : Int32) : Prop where
  unknown : id < 0 → (t.idToToken id).1 = some (strBytes "") ∧ DecodeSkips t box id
  inverse : ∀ token, token ≠ "" → (t.idToToken id).1 = some (strBytes token) →
    t.tokenToId (strBytes token) = id

/-- No token of the vocabulary has the bits of the id. -/
def Unused (vocabulary : Vocab) (id : Int32) : Prop :=
  ∀ token, vocabulary.lookup token ≠ some id.toUInt32

theorem decodeSkips_of_none (hhandle : t.handle = some box) (hdecodes : crates.DecodesTokens)
    {id : Int32} (hnone : crates.idToToken box.value.tokenizer id.toUInt32 = none) :
    DecodeSkips t box id := by
  intro before after
  have hfound : foundTokens box (before ++ id :: after) = foundTokens box (before ++ after) := by
    simp only [foundTokens, List.map_append, List.map_cons, List.filterMap_append,
      List.filterMap_cons_none hnone]
  refine ⟨hfound, fun skip => ?_⟩
  rw [decode_fst hhandle, decode_fst hhandle, TokenizerWrapper.decodedText,
    TokenizerWrapper.decodedText, hdecodes _ _ _ skip hfound]

theorem none_of_decodeSkips {id : Int32} (h : DecodeSkips t box id) :
    crates.idToToken box.value.tokenizer id.toUInt32 = none := by
  obtain ⟨hfound, -⟩ := h [] []
  cases htoken : crates.idToToken box.value.tokenizer id.toUInt32 with
  | none => rfl
  | some token => simp [foundTokens, htoken] at hfound

/-- **The sign of an id is respected, exactly when** it is not negative, or no token
has its bits. -/
theorem respectsSign_iff (hhandle : t.handle = some box)
    (hlookups : crates.LooksUp box.value.tokenizer vocabulary) (hdistinct : vocabulary.Distinct)
    (hdecodes : crates.DecodesTokens) (id : Int32) :
    RespectsSign t box id ↔ 0 ≤ id ∨ Unused vocabulary id := by
  have hnone : crates.idToToken box.value.tokenizer id.toUInt32 = none ↔ Unused vocabulary id := by
    rw [Option.eq_none_iff_forall_ne_some]
    exact forall_congr' fun token => not_congr (hlookups.idToToken_iff hdistinct)
  constructor
  · intro h
    by_cases hsign : id < 0
    · exact Or.inr (hnone.mp (none_of_decodeSkips (h.unknown hsign).2))
    · exact Or.inl (Int32.not_lt.mp hsign)
  · intro h
    constructor
    · intro hsign
      have hunused := hnone.mpr (h.resolve_left (Int32.not_le.mpr hsign))
      refine ⟨?_, decodeSkips_of_none hhandle hdecodes hunused⟩
      rw [idToToken_fst hhandle, TokenizerWrapper.tokenText, hunused]
      rfl
    · intro token hne htoken
      rw [idToToken_fst hhandle, TokenizerWrapper.tokenText] at htoken
      have htext := strBytes_inj (Option.some.inj htoken)
      cases hfound : crates.idToToken box.value.tokenizer id.toUInt32 with
      | none =>
        rw [hfound] at htext
        exact absurd htext.symm hne
      | some token' =>
        rw [hfound, Option.getD_some] at htext
        subst htext
        have hused := hlookups.lookup_of_idToToken hfound
        have hsign : 0 ≤ id := h.resolve_right fun hunused => hunused _ hused
        rw [tokenToId_strBytes hhandle, hlookups.tokenToId_eq, hused, Option.bind_some,
          i32TryFrom, if_pos (nonneg_iff_toUInt32.mp hsign)]
        exact Int32.toInt32_toUInt32 id

end Sign

/-! ## Conversions and lookups together -/

/-- **Token ids across the boundary.**  When Rust's encode succeeds, `Encode` returns its
ids, and fails, with an internal error, exactly when one does not fit; a list that it
returned reaches `decode` as these ids; `TokenToId` returns the exact id or -1; and the
sign of an id is respected, exactly when it is not negative or no token has its bits. -/
theorem id_conversion_iff {t : HFTokenizer crates} {box : RustBox (TokenizerWrapper crates)}
    {vocabulary : Vocab} (lib : SentencePieceLibrary) (cs : CharSign) (hmade : t.Produced)
    (hhandle : t.handle = some box) (hlookups : crates.LooksUp box.value.tokenizer vocabulary)
    (hdistinct : vocabulary.Distinct) (hdecodes : crates.DecodesTokens) :
    (∀ text options ids, encodeInput t.handle (some text) text.length
        (intOfBool options.addSpecialTokens) options.flags.bits = .ok ids → ∀ σ,
      let result := ((.huggingFace t : Tokenizer crates lib).encode cs text options σ).1
      ((∃ out, result = .ok out ∧ out.map Int32.toInt = ids.map fun id => (id.toNat : Int)) ∨
          ∃ e, result = .error e ∧ e.code = some .kInternal) ∧
        ((∃ e, result = .error e) ↔ ∃ id ∈ ids, 2 ^ 31 ≤ id.toNat)) ∧
    (∀ text options σ out,
      ((.huggingFace t : Tokenizer crates lib).encode cs text options σ).1 = .ok out →
        ∃ ids, encodeInput t.handle (some text) text.length
            (intOfBool options.addSpecialTokens) options.flags.bits = .ok ids ∧
          out.map Int32.toUInt32 = ids ∧
          ∀ skipSpecialTokens, (t.decode out skipSpecialTokens).1 =
            some (strBytes (box.value.decodedText ids skipSpecialTokens))) ∧
    (∀ token, (∃ text id, fromUtf8 token = some text ∧ vocabulary.lookup text = some id ∧
        (t.tokenToId token).toInt = id.toNat) ∨
      t.tokenToId token = -1 ∧ ∀ text id, fromUtf8 token = some text →
        vocabulary.lookup text = some id → 2 ^ 31 ≤ id.toNat) ∧
    ∀ id, RespectsSign t box id ↔ 0 ≤ id ∨ Unused vocabulary id := by
  refine ⟨fun text options ids hrust σ => ?_, ?_, tokenToId_exact hhandle hlookups,
    respectsSign_iff hhandle hlookups hdistinct hdecodes⟩
  · rcases encode_ids lib cs hmade.aligned hrust σ with
      ⟨hfits, hresult⟩ | ⟨hbig, e, hresult, hcode⟩
    · refine ⟨Or.inl ⟨_, hresult, ?_⟩, ?_⟩
      · rw [List.map_map]
        exact List.map_congr_left fun id hid => toInt_toInt32 (hfits id hid)
      · refine iff_of_false ?_ fun ⟨id, hid, hbig⟩ => absurd (hfits id hid) (Nat.not_lt.mpr hbig)
        rintro ⟨e, he⟩
        rw [hresult] at he
        cases he
    · exact ⟨Or.inr ⟨e, hresult, hcode⟩, iff_of_true ⟨e, hresult⟩ hbig⟩
  · exact fun text options σ out h => decode_of_encode lib cs hhandle h

end HFTokenizer

namespace SampleLibrary

theorem bpeCrates_decodesTokens : bpeCrates.DecodesTokens :=
  fun _ _ _ _ h => congrArg (fun tokens => Except.ok (String.join tokens)) h

theorem bpeTokenizer_looksUp (ids : TokenIds) :
    bpeCrates.LooksUp (TokenizerWrapper.bpeWrapper (overlay ids [])).tokenizer
      (overlay ids []) where
  tokenToId_eq _ := rfl
  lookup_of_idToToken h := AList.mem_lookup_iff.mpr (mem_of_lookup_inverse h)
  idToToken_of_lookup h := exists_lookup_inverse (AList.mem_lookup_iff.mp h)

end SampleLibrary

namespace HFTokenizer

open SampleLibrary

/-- In the vocabulary `{"a": 0, "b": 1}` no negative id denotes a token. -/
theorem id_conversion_ab : RespectsSign (bpeTokenizer [⟨"a", 0⟩, ⟨"b", 1⟩])
    (intoRaw (TokenizerWrapper.bpeWrapper (overlay [⟨"a", 0⟩, ⟨"b", 1⟩] [])) Ledger.initial).1
    (-1) := by
  obtain ⟨-, -, -, hsign⟩ := id_conversion_iff sentencePiece .signed
    (.byteLevelBPE (bpeTokenizer_made readsTokenIds_ab)) rfl (bpeTokenizer_looksUp _)
    (distinct_overlay.mpr distinctIds_ab) bpeCrates_decodesTokens
  refine (hsign (-1)).mpr (Or.inr fun token hused => ?_)
  rw [lookup_overlay] at hused
  rcases of_idOf_ab hused with ⟨-, hid⟩ | ⟨-, hid⟩
  · exact absurd hid (by decide)
  · exact absurd hid (by decide)

/-- In the vocabulary `{"a": 4294967294}` the id -2 denotes `a`, whose id is reported as -1. -/
theorem id_conversion_wraps :
    MadeFromBPE (strBytes "\x7b\"a\":4294967294\x7d") (strBytes "") (strBytes "")
        (bpeTokenizer [⟨"a", 4294967294⟩]) ∧
      ((bpeTokenizer [⟨"a", 4294967294⟩]).idToToken (-2)).1 = some (strBytes "a") ∧
      ((bpeTokenizer [⟨"a", 4294967294⟩]).decode [-2] false).1 = some (strBytes "a") ∧
      (bpeTokenizer [⟨"a", 4294967294⟩]).tokenToId (strBytes "a") = -1 := by
  have hids : ReadsTokenIds bpeCrates "\x7b\"a\":4294967294\x7d" [⟨"a", 4294967294⟩] :=
    ⟨_, _, rfl, rfl, .cons ⟨rfl, 4294967294, rfl, rfl⟩ .nil⟩
  refine ⟨bpeTokenizer_made hids, ?_, ?_, ?_⟩
  · rw [idToToken_fst rfl]
    rfl
  · rw [decode_fst rfl]
    rfl
  · rw [tokenToId_strBytes rfl]
    rfl

end HFTokenizer

end TokenizersCpp
