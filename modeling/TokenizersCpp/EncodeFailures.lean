import TokenizersCpp.Dispatch
import TokenizersCpp.SampleLibrary

/-!
# Failures of the encode step

The header promises a `TokenizerError` for every backend failure.  The Rust
backend keeps the promise: an abort becomes the exception of its category, and an
id that does not fit becomes `kInternal`.  The other two do not: SentencePiece's
status is dropped, and RWKV's checks throw an `FRException`.  So a call reports
its failures as promised exactly when it is backed by Rust, or stops at
validation, or has no failing text (`encode_failures_typed_iff`).
-/

namespace TokenizersCpp

open LongestMatch Tokenizer Traversal

/-! ## The loop of the RWKV backend -/

namespace RWKVWorldTokenizer

variable {cs : CharSign} {t : RWKVWorldTokenizer} {str : Bytes}

/-- A check of `find_longest_prefix` fails at a position that the loop of
`EncodeImpl` reaches. -/
def CheckFails (cs : CharSign) (t : RWKVWorldTokenizer) (str : Bytes) : Prop :=
  ∃ strIdx, Relation.ReflTransGen (fun i j => LoopIteration cs t str j i) 0 strIdx ∧
    strIdx < str.length ∧ ∃ e, t.tree.findLongestPrefix cs (str.drop strIdx) = .error e

theorem encodeLoop_iteration {i j : Nat} (h : LoopIteration cs t str j i) (ids : List Int32) :
    ∃ ids', t.encodeLoop cs str i ids = t.encodeLoop cs str j ids' := by
  obtain ⟨hlt, pfx, tokenId, hfound, rfl⟩ := h
  refine ⟨ids ++ [tokenId], ?_⟩
  rw [encodeLoop, dif_pos hlt]
  split
  · rename_i e he
    rw [hfound] at he
    cases he
  · rename_i pfx' tokenId' hok
    rw [hfound] at hok
    obtain ⟨rfl, rfl⟩ := Prod.mk.inj (Except.ok.inj hok)
    rfl

theorem encodeLoop_check {i : Nat} {e : CppException} (hlt : i < str.length)
    (h : t.tree.findLongestPrefix cs (str.drop i) = .error e) (ids : List Int32) :
    t.encodeLoop cs str i ids = .error e := by
  rw [encodeLoop, dif_pos hlt]
  split
  · rename_i e' he
    rw [h] at he
    exact congrArg Except.error (Except.error.inj he).symm
  · rename_i pfx tokenId hok
    rw [h] at hok
    cases hok

/-- `EncodeImpl` throws exactly when a check fails. -/
theorem checkFails_iff {options : EncodeOptions} :
    CheckFails cs t str ↔ ∃ e, t.encodeImpl cs str options = .error e := by
  constructor
  · rintro ⟨strIdx, hreach, hlt, e, he⟩
    have hrun : ∀ ids, ∃ ids', t.encodeLoop cs str 0 ids = t.encodeLoop cs str strIdx ids' := by
      clear hlt he
      induction hreach with
      | refl => exact fun ids => ⟨ids, rfl⟩
      | tail _ hstep ih =>
        intro ids
        obtain ⟨ids', heq⟩ := ih ids
        obtain ⟨ids'', heq'⟩ := encodeLoop_iteration hstep ids'
        exact ⟨ids'', heq.trans heq'⟩
    obtain ⟨ids', heq⟩ := hrun []
    exact ⟨e, heq.trans (encodeLoop_check hlt he ids')⟩
  · rintro ⟨e, he⟩
    have hfail : ∀ i ids, t.encodeLoop cs str i ids = .error e → ∃ strIdx,
        Relation.ReflTransGen (fun i j => LoopIteration cs t str j i) i strIdx ∧
          strIdx < str.length ∧ ∃ e, t.tree.findLongestPrefix cs (str.drop strIdx) = .error e := by
      intro i
      -- along the progress of the loop
      induction i using (loopIteration_wellFounded cs t str).induction with
      | _ i ih =>
        intro ids herr
        by_cases hlt : i < str.length
        · cases hfound : t.tree.findLongestPrefix cs (str.drop i) with
          | error e' => exact ⟨i, .refl, hlt, e', hfound⟩
          | ok found =>
            have hstep : LoopIteration cs t str (i + found.1.length) i :=
              ⟨hlt, found.1, found.2, hfound, rfl⟩
            obtain ⟨ids', heq⟩ := encodeLoop_iteration hstep ids
            obtain ⟨strIdx, hreach, hfail⟩ := ih _ hstep ids' (heq ▸ herr)
            exact ⟨strIdx, .head hstep hreach, hfail⟩
        · rw [encodeLoop, dif_neg hlt] at herr
          cases herr
    exact hfail 0 [] he

end RWKVWorldTokenizer

/-! ## The encode step -/

section Step
variable {crates : Crates} {lib : SentencePieceLibrary} (cs : CharSign)

/-- The backend's encode step fails on a text, and reports the category `code`
(`none` for a backend that names no category). -/
def EncodeStepFails (t : Tokenizer crates lib) (text : Bytes) (options : EncodeOptions)
    (code : Option TokenizerErrorCode) : Prop :=
  match t with
  | .huggingFace t =>
      let result := encodeInput t.handle (some text) text.length
        (HFTokenizer.intOfBool options.addSpecialTokens) options.flags.bits
      (∃ abort, result = .error abort ∧ code = some abort.code) ∨
        ∃ ids, result = .ok ids ∧ (∃ id ∈ ids, 0x7fffffff < id) ∧ code = some .kInternal
  | .sentencePiece t => (lib.encode t.sentencePiece text).1 ≠ .ok ∧ code = none
  | .rwkvWorld t => t.CheckFails cs text ∧ code = none

/-- The encode step of a batch call fails.  The Rust backend has one step for the
whole batch, the others one for each text. -/
def EncodeBatchStepFails (t : Tokenizer crates lib) (texts : List Bytes) (options : EncodeOptions)
    (code : Option TokenizerErrorCode) : Prop :=
  match t with
  | .huggingFace t =>
      let result := encodeInputs t.handle (texts.map some) (texts.map List.length) texts.length
        (HFTokenizer.intOfBool options.addSpecialTokens) options.flags.bits
      texts ≠ [] ∧
        ((∃ abort, result = .error abort ∧ code = some abort.code) ∨
          ∃ batch, result = .ok batch ∧ (∃ ids ∈ batch, ∃ id ∈ ids, 0x7fffffff < id) ∧
            code = some .kInternal)
  | t => ∃ text ∈ texts, EncodeStepFails cs t text options code

/-- What the header promises of a failed step: a `TokenizerError`, with the
category that the backend reported. -/
def ReportsAs {α : Type} (code : Option TokenizerErrorCode) (result : Except CppException α) :
    Prop :=
  ∃ e c, result = .error e ∧ e.code = some c ∧ ∀ c', code = some c' → c = c'

/-- `Encode` reports every failure of its step as promised. -/
def EncodeReports (t : Tokenizer crates lib) (text : Bytes) (options : EncodeOptions) : Prop :=
  options.Accepted t.supportsEncodeFlags → ∀ code, EncodeStepFails cs t text options code →
    ∀ σ, ReportsAs code (t.encode cs text options σ).1

/-- `EncodeBatch` reports every failure of its step as promised. -/
def EncodeBatchReports (t : Tokenizer crates lib) (texts : List Bytes) (options : EncodeOptions) :
    Prop :=
  options.Accepted t.supportsEncodeFlags → ∀ code, EncodeBatchStepFails cs t texts options code →
    ∀ σ, ReportsAs code (t.encodeBatch cs texts options σ).1

/-- The tokenizer is backed by Rust. -/
def RustBacked : Tokenizer crates lib → Prop
  | .huggingFace _ => True
  | _ => False

/-- The texts that the other backends cannot encode: SentencePiece reports a
status that is not OK; greedy longest match over the RWKV vocabulary gets stuck. -/
def FailingText (t : Tokenizer crates lib) (text : Bytes) : Prop :=
  match t with
  | .huggingFace _ => False
  | .sentencePiece t => (lib.encode t.sentencePiece text).1 ≠ .ok
  | .rwkvWorld t => ∃ ws ts r, Run t.word2idx.lookup (· ≠ -1) text ws ts r ∧
      Stuck t.word2idx.lookup (· ≠ -1) r

/-! ## The Rust backend keeps the promise -/

theorem encodeReports_huggingFace (t : HFTokenizer crates) (text : Bytes)
    (options : EncodeOptions) :
    EncodeReports cs (.huggingFace t : Tokenizer crates lib) text options := by
  intro haccepted code hfails σ
  rw [Tokenizer.encode_fst, validateEncodeOptions_eq_ok.mpr haccepted]
  show ReportsAs code (t.encodeOutcome text options)
  rw [HFTokenizer.encodeOutcome]
  rcases hfails with ⟨abort, hresult, rfl⟩ | ⟨ids, hresult, hbig, rfl⟩
  · rw [hresult]
    exact ⟨abort.exception, abort.code, rfl, rfl, fun c' hc => Option.some.inj hc⟩
  · obtain ⟨e, he, hcode⟩ := mapM_convertId_error hbig
    rw [hresult]
    exact ⟨e, .kInternal, he, hcode, fun c' hc => Option.some.inj hc⟩

theorem encodeBatchReports_huggingFace (haligned : crates.BatchAligned) (t : HFTokenizer crates)
    (texts : List Bytes) (options : EncodeOptions) :
    EncodeBatchReports cs (.huggingFace t : Tokenizer crates lib) texts options := by
  intro haccepted code hfails σ
  rw [Tokenizer.encodeBatch_fst cs haligned, validateEncodeOptions_eq_ok.mpr haccepted]
  show ReportsAs code (t.encodeBatchOutcome texts options)
  obtain ⟨hne, hfails⟩ := hfails
  rw [HFTokenizer.encodeBatchOutcome, if_neg (by simpa using hne)]
  rcases hfails with ⟨abort, hresult, rfl⟩ | ⟨batch, hresult, hbig, rfl⟩
  · rw [hresult]
    exact ⟨abort.exception, abort.code, rfl, rfl, fun c' hc => Option.some.inj hc⟩
  · obtain ⟨e, he, hcode⟩ := mapM_mapM_convertId_error hbig
    rw [hresult]
    exact ⟨e, .kInternal, he, hcode, fun c' hc => Option.some.inj hc⟩

/-! ## The other backends do not -/

theorem not_reportsAs_ok {α : Type} {code : Option TokenizerErrorCode} {a : α} :
    ¬ ReportsAs code (.ok a : Except CppException α) := by
  rintro ⟨e, c, h, -⟩
  cases h

theorem not_reportsAs_frException {α : Type} {code : Option TokenizerErrorCode} {msg : String} :
    ¬ ReportsAs code (.error (.frException msg) : Except CppException α) := by
  rintro ⟨e, c, h, hcode, -⟩
  rw [← Except.error.inj h] at hcode
  cases hcode

variable {cs} {t : Tokenizer crates lib}

/-- A backend other than Rust returns ids or throws an `FRException`. -/
theorem encodeOutcome_cases (hmade : t.MadeByFactory cs) (hrust : ¬ RustBacked t) (text : Bytes)
    (options : EncodeOptions) :
    (∃ ids, t.encodeOutcome cs text options = .ok ids) ∨
      ∃ msg, t.encodeOutcome cs text options = .error (.frException msg) := by
  cases hmade with
  | json h => exact absurd trivial hrust
  | byteLevelBPE h => exact absurd trivial hrust
  | sentencePiece modelBlob => exact Or.inl ⟨_, rfl⟩
  | rwkvWorld h => exact RWKVWorldTokenizer.encodeImpl_cases h.represents text options

theorem not_reportsAs_encode (hmade : t.MadeByFactory cs) (hrust : ¬ RustBacked t) (text : Bytes)
    (options : EncodeOptions) (code : Option TokenizerErrorCode) :
    ¬ ReportsAs code (t.encodeOutcome cs text options) := by
  rcases encodeOutcome_cases hmade hrust text options with ⟨ids, h⟩ | ⟨msg, h⟩
  · rw [h]
    exact not_reportsAs_ok
  · rw [h]
    exact not_reportsAs_frException

theorem not_reportsAs_encodeBatch (hmade : t.MadeByFactory cs) (hrust : ¬ RustBacked t)
    (texts : List Bytes) (options : EncodeOptions) (code : Option TokenizerErrorCode) :
    ¬ ReportsAs code (t.encodeBatchOutcome cs texts options) := by
  have hloop : t.encodeBatchOutcome cs texts options =
      texts.mapM fun text => t.encodeOutcome cs text options := by
    cases t with
    | huggingFace t => exact absurd trivial hrust
    | sentencePiece t => rfl
    | rwkvWorld t => rfl
  rw [hloop]
  cases hmap : texts.mapM fun text => t.encodeOutcome cs text options with
  | ok out => exact not_reportsAs_ok
  | error e =>
    obtain ⟨text, -, he⟩ := mapM_eq_error hmap
    have hsingle := not_reportsAs_encode hmade hrust text options code
    rw [he] at hsingle
    exact fun ⟨e', c, h, hcode⟩ => hsingle ⟨e', c, congrArg _ (Except.error.inj h), hcode⟩

/-- A loaded tokenizer that is not backed by Rust fails its step on the texts it
cannot encode, and on no other. -/
theorem encodeStepFails_iff {t : Tokenizer crates lib} (hmade : t.MadeByFactory cs)
    (hrust : ¬ RustBacked t) {text : Bytes} {options : EncodeOptions} :
    (∃ code, EncodeStepFails cs t text options code) ↔ FailingText t text := by
  cases hmade with
  | json h => exact absurd trivial hrust
  | byteLevelBPE h => exact absurd trivial hrust
  | sentencePiece modelBlob =>
    exact ⟨fun ⟨_, hfails, _⟩ => hfails, fun hfails => ⟨none, hfails, rfl⟩⟩
  | rwkvWorld h =>
    rename_i t
    have hthrows : (∃ e, t.encodeImpl cs text options = .error e) ↔
        FailingText (.rwkvWorld t : Tokenizer crates lib) text :=
      RWKVWorldTokenizer.encodeImpl_throws_iff h.represents
    have hchecks := RWKVWorldTokenizer.checkFails_iff.trans hthrows
    exact ⟨fun ⟨_, hfails, _⟩ => hchecks.mp hfails, fun hfails => ⟨none, hchecks.mpr hfails, rfl⟩⟩

/-- So does a batch with such a text. -/
theorem encodeBatchStepFails_iff (hmade : t.MadeByFactory cs) (hrust : ¬ RustBacked t)
    {texts : List Bytes} {options : EncodeOptions} :
    (∃ code, EncodeBatchStepFails cs t texts options code) ↔
      ∃ text ∈ texts, FailingText t text := by
  have hstep : ∀ code, EncodeBatchStepFails cs t texts options code ↔
      ∃ text ∈ texts, EncodeStepFails cs t text options code := by
    intro code
    cases t with
    | huggingFace t => exact absurd trivial hrust
    | sentencePiece t => exact Iff.rfl
    | rwkvWorld t => exact Iff.rfl
  constructor
  · rintro ⟨code, hfails⟩
    obtain ⟨text, hmem, hfails⟩ := (hstep code).mp hfails
    exact ⟨text, hmem, (encodeStepFails_iff hmade hrust).mp ⟨code, hfails⟩⟩
  · rintro ⟨text, hmem, hfails⟩
    obtain ⟨code, hfails⟩ := (encodeStepFails_iff hmade hrust).mpr hfails
    exact ⟨code, (hstep code).mpr ⟨text, hmem, hfails⟩⟩

/-- A failure of such a backend is not reported as promised. -/
theorem not_encodeReports (hmade : t.MadeByFactory cs) (hrust : ¬ RustBacked t) {text : Bytes}
    {options : EncodeOptions} (haccepted : options.Accepted t.supportsEncodeFlags)
    {code : Option TokenizerErrorCode} (hfails : EncodeStepFails cs t text options code) :
    ¬ EncodeReports cs t text options := by
  intro hreports
  have hresult := hreports haccepted code hfails Ledger.initial
  rw [Tokenizer.encode_fst, validateEncodeOptions_eq_ok.mpr haccepted] at hresult
  exact not_reportsAs_encode hmade hrust text options code hresult

theorem not_encodeBatchReports (haligned : crates.BatchAligned) (hmade : t.MadeByFactory cs)
    (hrust : ¬ RustBacked t) {texts : List Bytes} {options : EncodeOptions}
    (haccepted : options.Accepted t.supportsEncodeFlags) {code : Option TokenizerErrorCode}
    (hfails : EncodeBatchStepFails cs t texts options code) :
    ¬ EncodeBatchReports cs t texts options := by
  intro hreports
  have hresult := hreports haccepted code hfails Ledger.initial
  rw [Tokenizer.encodeBatch_fst cs haligned, validateEncodeOptions_eq_ok.mpr haccepted] at hresult
  exact not_reportsAs_encodeBatch hmade hrust texts options code hresult

/-- **Failures are reported as the header promises, exactly when** the tokenizer
is backed by Rust, or the options stop the call at validation, or no text of the
call is one that the backend cannot encode. -/
theorem encode_failures_typed_iff (haligned : crates.BatchAligned) (hmade : t.MadeByFactory cs)
    (options : EncodeOptions) :
    (∀ text, EncodeReports cs t text options ↔
      RustBacked t ∨ ¬ options.Accepted t.supportsEncodeFlags ∨ ¬ FailingText t text) ∧
    ∀ texts, EncodeBatchReports cs t texts options ↔
      RustBacked t ∨ ¬ options.Accepted t.supportsEncodeFlags ∨
        ∀ text ∈ texts, ¬ FailingText t text := by
  by_cases hrust : RustBacked t
  · cases t with
    | huggingFace t =>
      exact ⟨fun text => iff_of_true (encodeReports_huggingFace cs t text options) (Or.inl hrust),
        fun texts => iff_of_true (encodeBatchReports_huggingFace cs haligned t texts options)
          (Or.inl hrust)⟩
    | sentencePiece t => exact hrust.elim
    | rwkvWorld t => exact hrust.elim
  · by_cases haccepted : options.Accepted t.supportsEncodeFlags
    · refine ⟨fun text => ?_, fun texts => ?_⟩
      · simp only [hrust, haccepted, not_true_eq_false, false_or]
        rw [← show (∃ code, EncodeStepFails cs t text options code) ↔ _ from
          encodeStepFails_iff hmade hrust]
        constructor
        · exact fun hreports ⟨code, hfails⟩ =>
            not_encodeReports hmade hrust haccepted hfails hreports
        · exact fun hnone _ code hfails => absurd ⟨code, hfails⟩ hnone
      · simp only [hrust, haccepted, not_true_eq_false, false_or]
        have hnone : (∀ text ∈ texts, ¬ FailingText t text) ↔
            ¬ ∃ code, EncodeBatchStepFails cs t texts options code := by
          rw [encodeBatchStepFails_iff hmade hrust]
          simp
        rw [hnone]
        constructor
        · exact fun hreports ⟨code, hfails⟩ =>
            not_encodeBatchReports haligned hmade hrust haccepted hfails hreports
        · exact fun hnone _ code hfails => absurd ⟨code, hfails⟩ hnone
    · exact ⟨fun text => iff_of_true (fun h => absurd h haccepted) (Or.inr (Or.inl haccepted)),
        fun texts => iff_of_true (fun h => absurd h haccepted) (Or.inr (Or.inl haccepted))⟩

/-- A Rust-backed tokenizer reports a text that is not UTF-8. -/
theorem encode_failures_typed_plain :
    EncodeReports .signed (.huggingFace (SampleLibrary.loaded SampleLibrary.plainTokenizer) :
      Tokenizer SampleLibrary.crates SampleLibrary.sentencePiece) [0xff] {} :=
  ((encode_failures_typed_iff SampleLibrary.view_documented.padded.batchAligned
    (.json (SampleLibrary.loaded_made SampleLibrary.fromStr_plain)) {}).1 [0xff]).mpr
      (Or.inl trivial)

/-- The RWKV vocabulary `{0: "a", 1: "b"}` has no word for `"c"`, and `Encode`
throws an `FRException`; a SentencePiece processor without a model reports a
failed status, and `Encode` returns no ids. -/
theorem encode_failures_not_typed :
    (MadeByFactory .signed (.rwkvWorld RWKVWorldTokenizer.abTokenizer :
        Tokenizer SampleLibrary.crates SampleLibrary.sentencePiece) ∧
      (∃ msg, ∀ σ, ((.rwkvWorld RWKVWorldTokenizer.abTokenizer :
        Tokenizer SampleLibrary.crates SampleLibrary.sentencePiece).encode .signed [0x63] {} σ).1 =
          .error (.frException msg)) ∧
      ¬ EncodeReports .signed (.rwkvWorld RWKVWorldTokenizer.abTokenizer :
        Tokenizer SampleLibrary.crates SampleLibrary.sentencePiece) [0x63] {}) ∧
    MadeByFactory .signed (.sentencePiece (.construct _ []) :
        Tokenizer SampleLibrary.crates SampleLibrary.sentencePiece) ∧
      (∀ σ, ((.sentencePiece (.construct _ []) :
        Tokenizer SampleLibrary.crates SampleLibrary.sentencePiece).encode .signed [0x61] {} σ).1 =
          .ok []) ∧
      ¬ EncodeReports .signed (.sentencePiece (.construct _ []) :
        Tokenizer SampleLibrary.crates SampleLibrary.sentencePiece) [0x61] {} := by
  have hmade : MadeByFactory .signed (.rwkvWorld RWKVWorldTokenizer.abTokenizer :
      Tokenizer SampleLibrary.crates SampleLibrary.sentencePiece) :=
    .rwkvWorld RWKVWorldTokenizer.abTokenizer_loaded
  have hmade' : MadeByFactory .signed (.sentencePiece (.construct _ []) :
      Tokenizer SampleLibrary.crates SampleLibrary.sentencePiece) := .sentencePiece []
  have hthrows : ∃ msg, RWKVWorldTokenizer.abTokenizer.encodeImpl .signed [0x63] {} =
      .error (.frException msg) := by
    refine (RWKVWorldTokenizer.encodeImpl_cases
      RWKVWorldTokenizer.abTokenizer_loaded.represents [0x63] {}).resolve_left ?_
    rintro ⟨ids, hok⟩
    have hfails : (RWKVWorldTokenizer.abTokenizer.encodeImpl .signed [0x63] {}).isOk = false := by
      decide +kernel
    rw [hok] at hfails
    cases hfails
  obtain ⟨msg, hthrows⟩ := hthrows
  refine ⟨⟨hmade, ⟨msg, fun σ => ?_⟩, ?_⟩, hmade', fun σ => rfl, ?_⟩
  · rw [Tokenizer.encode_fst]
    exact hthrows
  · exact not_encodeReports hmade not_false (by decide)
      ⟨RWKVWorldTokenizer.checkFails_iff.mpr ⟨_, hthrows⟩, rfl⟩
  · exact not_encodeReports hmade' not_false (by decide) ⟨nofun, rfl⟩

end Step

end TokenizersCpp
