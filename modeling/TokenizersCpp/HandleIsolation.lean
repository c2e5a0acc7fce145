import TokenizersCpp.SharedHandle

/-!
# Isolation on a shared handle

The calls of the clients of one tokenizer do not see each other.  `answerOf`
reads the answer of a call off the loaded wrapper; a tokenizer answers so when
it is alone (`alone_eq`), and so do the steps of a client among others
(`advance_spec`), because its tokenizer, its encode variants and its flag
support never change (`SameLoad`), and the scratch string that it reads is
assigned only by itself while it is inside its section.
-/

namespace TokenizersCpp

open Interleaving Traversal

variable {crates : Crates}

/-! ## What a call answers -/

namespace SharedHandle

/-- The answer of a call, read off the loaded tokenizer. -/
def answerOf (t : HFTokenizer crates) : Call → Answer
  | .encode text options => .ids
      (validateEncodeOptions options t.supportsEncodeFlags >>= fun _ =>
        t.encodeOutcome text options)
  | .encodeBatch texts options => .batch
      (validateEncodeOptions options t.supportsEncodeFlags >>= fun _ =>
        t.encodeBatchOutcome texts options)
  | .encodeImpl text options => .ids (t.encodeOutcome text options)
  | .encodeBatchImpl texts options => .batch (t.encodeBatchOutcome texts options)
  | .decode ids skipSpecialTokens => .text <| t.handle.map fun box =>
      strBytes (box.value.decodedText (ids.map Int32.toUInt32) skipSpecialTokens)
  | .idToToken id => .text <| t.handle.map fun box => strBytes (box.value.tokenText id.toUInt32)
  | .tokenToId token => .id (t.tokenToId token)

/-- **A tokenizer that nobody else uses** gives the answer of its wrapper, whatever
the ledger is. -/
theorem alone_eq (lib : SentencePieceLibrary) (cs : CharSign) (haligned : crates.BatchAligned)
    {t : HFTokenizer crates} {box : RustBox (TokenizerWrapper crates)}
    (hhandle : t.handle = some box) (call : Call) (σ : Ledger) :
    alone lib cs t call σ = answerOf t call := by
  cases call with
  | encode text options =>
    exact congrArg Answer.ids (Tokenizer.encode_fst cs (.huggingFace t) text options σ)
  | encodeBatch texts options =>
    exact congrArg Answer.batch
      (Tokenizer.encodeBatch_fst cs haligned (.huggingFace t) texts options σ)
  | encodeImpl text options => exact congrArg Answer.ids (t.encodeImpl_fst text options σ)
  | encodeBatchImpl texts options =>
    exact congrArg Answer.batch (t.encodeBatchImpl_fst haligned texts options σ)
  | decode ids skipSpecialTokens =>
    simp only [alone, answerOf, HFTokenizer.decode_fst hhandle, hhandle, Option.map_some]
  | idToToken id =>
    simp only [alone, answerOf, HFTokenizer.idToToken_fst hhandle, hhandle, Option.map_some]
  | tokenToId token => rfl

/-! ## What the clients cannot change -/

/-- Two tokenizers that differ at most in the address of the wrapper and in its
scratch strings. -/
inductive SameLoad : HFTokenizer crates → HFTokenizer crates → Prop
  | intro (addr addr' : Nat) (tokenizer : crates.Tokenizer)
      (encodeVariants : Option (EncodeVariants crates)) (supportsEncodeFlags : Bool)
      (d d' i i' : ScratchString) :
      SameLoad ⟨some ⟨addr, ⟨tokenizer, encodeVariants, d, i⟩⟩, supportsEncodeFlags⟩
        ⟨some ⟨addr', ⟨tokenizer, encodeVariants, d', i'⟩⟩, supportsEncodeFlags⟩

namespace SameLoad
variable {t t' : HFTokenizer crates}

theorem encodeOutcome_eq (h : SameLoad t t') (text : Bytes) (options : EncodeOptions) :
    t'.encodeOutcome text options = t.encodeOutcome text options := by
  cases h
  rfl

theorem encodeBatchOutcome_eq (h : SameLoad t t') (texts : List Bytes) (options : EncodeOptions) :
    t'.encodeBatchOutcome texts options = t.encodeBatchOutcome texts options := by
  cases h
  rfl

/-- They answer every call alike. -/
theorem answerOf_eq (h : SameLoad t t') (call : Call) : answerOf t' call = answerOf t call := by
  cases h
  cases call <;> rfl

end SameLoad

/-- A Hugging Face model blob. -/
inductive Blob
  | json (json : Bytes)
  | byteLevelBPE (vocab merges addedTokens : Bytes)

/-- The tokenizer is one that the blob loads. -/
def Blob.Loads (blob : Blob) (t : HFTokenizer crates) : Prop :=
  match blob with
  | .json blob => HFTokenizer.MadeFromJSON blob t
  | .byteLevelBPE vocab merges addedTokens => HFTokenizer.MadeFromBPE vocab merges addedTokens t

/-- A load is a function of the blob, up to the address of the wrapper. -/
theorem Blob.Loads.sameLoad {blob : Blob} {t t' : HFTokenizer crates} (h : blob.Loads t)
    (h' : blob.Loads t') : SameLoad t t' := by
  have hsame : ∀ (box box' : RustBox (TokenizerWrapper crates)) (supports : Bool)
      (load : Rust (TokenizerWrapper crates)), load = .ok box.value → load = .ok box'.value →
        SameLoad ⟨some box, supports⟩ ⟨some box', supports⟩ := by
    rintro ⟨addr, w⟩ ⟨addr', w'⟩ supports load hw hw'
    obtain rfl : w = w' := Except.ok.inj (hw.symm.trans hw')
    exact .intro addr addr' w.tokenizer w.encodeVariants supports _ _ _ _
  cases blob with
  | json json =>
    obtain ⟨_, _, _, h⟩ := h
    obtain ⟨_, _, _, h'⟩ := h'
    obtain ⟨box, hload, rfl⟩ := HFTokenizer.wrapper_of_fromReturn h
    obtain ⟨box', hload', rfl⟩ := HFTokenizer.wrapper_of_fromReturn h'
    exact hsame box box' true _ hload hload'
  | byteLevelBPE vocab merges addedTokens =>
    obtain ⟨_, _, _, h⟩ := h
    obtain ⟨_, _, _, h'⟩ := h'
    obtain ⟨box, hload, rfl⟩ := HFTokenizer.wrapper_of_fromReturn h
    obtain ⟨box', hload', rfl⟩ := HFTokenizer.wrapper_of_fromReturn h'
    exact hsame box box' false _ hload hload'

/-! ## Assertions -/

/-- A scratch string of the shared tokenizer. -/
def Shared.scratch (g : Shared crates) (scratch : Scratch) : Option ScratchString :=
  g.tokenizer.handle.map fun box => scratch.of box.value

section Assertions
variable (t : HFTokenizer crates)

/-- What holds in front of and behind every step of a client: it is on its way to
the answer of `t`.  Between `tokenizers_decode` or `tokenizers_id_to_token` and
the copy, the scratch string holds the client's own text. -/
def At (g : Shared crates) : Phase → Prop
  | .idle => True
  | .started _ => True
  | .accepted call text options => answerOf t call = .ids (t.encodeOutcome text options)
  | .encoded call status result error =>
      answerOf t call = .ids (checkStatus status error >>= fun _ => convertResult result)
  | .acceptedBatch call texts options =>
      answerOf t call = .batch (t.encodeBatchOutcome texts options)
  | .encodedBatch call status results error =>
      answerOf t call = .batch (checkStatus status error >>= fun _ => results.mapM convertResult)
  | .decoded call => call.scratch = some .decodeStr ∧ ∃ str, g.scratch .decodeStr = some str ∧
      answerOf t call = .text (some (strBytes str.text))
  | .viewing call scratch data len => call.scratch = some scratch ∧
      ∃ str, g.scratch scratch = some str ∧ (data, len) = str.view ∧
        answerOf t call = .text (some (strBytes str.text))

/-- A step that goes on keeps the assertion; one that answers answers as `t`. -/
def Progress.Meets (g : Shared crates) (phase : Phase) : Progress → Prop
  | .goes phase' => At t g phase'
  | .answers answer => ∀ call, phase.call = some call → answer = answerOf t call

variable {t}

/-- An assertion looks at the scratch string of the client's own section only. -/
theorem At.frame {g g' : Shared crates} {phase : Phase} (hat : At t g phase)
    (hframe : ∀ scratch, phase.Inside scratch → g'.scratch scratch = g.scratch scratch) :
    At t g' phase := by
  cases phase with
  | decoded call =>
    obtain ⟨hcall, str, hstr, hanswer⟩ := hat
    exact ⟨hcall, str, (hframe .decodeStr hcall).trans hstr, hanswer⟩
  | viewing call scratch data len =>
    obtain ⟨hcall, str, hstr, hview⟩ := hat
    exact ⟨hcall, str, (hframe scratch hcall).trans hstr, hview⟩
  | _ => exact hat

end Assertions

/-! ## What a step does -/

section Step
variable {t : HFTokenizer crates} {g g' : Shared crates}

/-- The first step of a call assigns the scratch string of the call, if it has one,
and nothing else. -/
theorem start_spec (hload : SameLoad t g.tokenizer) (call : Call) :
    SameLoad t (start g call).1.tokenizer ∧
      (∀ scratch, call.scratch ≠ some scratch →
        (start g call).1.scratch scratch = g.scratch scratch) ∧
      (start g call).2.Meets t (start g call).1 (.started call) := by
  obtain ⟨tokenizer, σ⟩ := g
  cases hload with
  | intro addr addr' tokenizer variants supports d d' i i' =>
  cases call with
  | encode text options =>
    simp only [start]
    cases hvalid : validateEncodeOptions options supports with
    | error e =>
      refine ⟨.intro .., fun _ _ => rfl, ?_⟩
      rintro _ ⟨⟩
      simp only [answerOf, hvalid]
      rfl
    | ok u =>
      refine ⟨.intro .., fun _ _ => rfl, ?_⟩
      simp only [Progress.Meets, At, answerOf, hvalid]
      rfl
  | encodeBatch texts options =>
    simp only [start]
    cases hvalid : validateEncodeOptions options supports with
    | error e =>
      refine ⟨.intro .., fun _ _ => rfl, ?_⟩
      rintro _ ⟨⟩
      simp only [answerOf, hvalid]
      rfl
    | ok u =>
      refine ⟨.intro .., fun _ _ => rfl, ?_⟩
      simp only [Progress.Meets, At, answerOf, hvalid]
      rfl
  | encodeImpl text options => exact ⟨.intro .., fun _ _ => rfl, rfl⟩
  | encodeBatchImpl texts options => exact ⟨.intro .., fun _ _ => rfl, rfl⟩
  | decode ids skipSpecialTokens =>
    simp only [start, tokenizersDecode_box _ _ _ (List.length_map ..).symm]
    -- the one step that assigns `decode_str`
    refine ⟨.intro .., fun scratch hne => ?_, rfl, _, rfl, rfl⟩
    cases scratch with
    | decodeStr => exact absurd rfl hne
    | idToTokenResult => rfl
  | idToToken id =>
    -- the one step that assigns `id_to_token_result`
    refine ⟨.intro .., fun scratch hne => ?_, rfl, _, rfl, rfl, rfl⟩
    cases scratch with
    | decodeStr => rfl
    | idToTokenResult => exact absurd rfl hne
  | tokenToId token =>
    refine ⟨.intro .., fun _ _ => rfl, ?_⟩
    rintro _ ⟨⟩
    rfl

/-- **What a step of a client does**: the tokenizer stays the loaded one, no scratch
string is assigned but the one whose section the client is inside, and the client
keeps its assertion, or has the answer of `t`. -/
theorem advance_spec (haligned : crates.BatchAligned) (hload : SameLoad t g.tokenizer)
    {phase : Phase} (hat : At t g phase) {progress : Progress}
    (h : advance g phase = some (g', progress)) :
    SameLoad t g'.tokenizer ∧
      (∀ scratch, ¬ phase.Inside scratch → g'.scratch scratch = g.scratch scratch) ∧
      progress.Meets t g' phase := by
  cases phase with
  | idle => cases h
  | started call =>
    obtain ⟨rfl, rfl⟩ := Prod.mk.inj (Option.some.inj h)
    exact start_spec hload call
  | accepted call text options =>
    obtain ⟨rfl, rfl⟩ := Prod.mk.inj (Option.some.inj h)
    have houtcome := g.tokenizer.encodeImpl_fst text options g.ledger
    rw [hload.encodeOutcome_eq] at houtcome
    exact ⟨hload, fun _ _ => rfl, hat.trans (congrArg Answer.ids houtcome.symm)⟩
  | encoded call status result error =>
    obtain ⟨rfl, rfl⟩ := Prod.mk.inj (Option.some.inj h)
    refine ⟨hload, fun _ _ => rfl, ?_⟩
    rintro _ ⟨⟩
    exact hat.symm
  | acceptedBatch call texts options =>
    cases htexts : texts.isEmpty with
    | true =>
      simp only [advance, htexts, if_true] at h
      obtain ⟨rfl, rfl⟩ := Prod.mk.inj (Option.some.inj h)
      refine ⟨hload, fun _ _ => rfl, ?_⟩
      rintro _ ⟨⟩
      have hempty : t.encodeBatchOutcome texts options = .ok [] := if_pos htexts
      exact ((hempty ▸ hat : answerOf t call = .batch (.ok []))).symm
    | false =>
      simp only [advance, htexts, Bool.false_eq_true, if_false] at h
      obtain ⟨rfl, rfl⟩ := Prod.mk.inj (Option.some.inj h)
      have houtcome := g.tokenizer.encodeBatchImpl_fst haligned texts options g.ledger
      rw [hload.encodeBatchOutcome_eq, g.tokenizer.encodeBatchImpl_of_texts htexts] at houtcome
      exact ⟨hload, fun _ _ => rfl, hat.trans (congrArg Answer.batch houtcome.symm)⟩
  | encodedBatch call status results error =>
    obtain ⟨rfl, rfl⟩ := Prod.mk.inj (Option.some.inj h)
    refine ⟨hload, fun _ _ => rfl, ?_⟩
    rintro _ ⟨⟩
    exact hat.symm
  | decoded call =>
    obtain ⟨rfl, rfl⟩ := Prod.mk.inj (Option.some.inj h)
    obtain ⟨hcall, str, hstr, hanswer⟩ := hat
    refine ⟨hload, fun _ _ => rfl, hcall, str, hstr, ?_, hanswer⟩
    obtain ⟨box, hbox, rfl⟩ := Option.map_eq_some_iff.mp hstr
    rw [hbox]
    rfl
  | viewing call scratch data len =>
    obtain ⟨rfl, rfl⟩ := Prod.mk.inj (Option.some.inj h)
    obtain ⟨hcall, str, hstr, hview, hanswer⟩ := hat
    refine ⟨hload, fun _ _ => rfl, ?_⟩
    rintro _ ⟨⟩
    obtain ⟨box, hbox, rfl⟩ := Option.map_eq_some_iff.mp hstr
    obtain ⟨rfl, rfl⟩ := Prod.mk.inj hview
    rw [hanswer, hbox]
    exact congrArg Answer.text (ScratchString.read_view _)

end Step

/-- The steps that a client has left, at most. -/
def Phase.stepsLeft : Phase → Nat
  | .idle => 0
  | .started _ => 3
  | .accepted _ _ _ | .acceptedBatch _ _ _ | .decoded _ => 2
  | .encoded _ _ _ _ | .encodedBatch _ _ _ _ | .viewing _ _ _ _ => 1

/-- A first step that goes on stays inside the call. -/
theorem start_goes {call : Call} {phase : Phase} (h : (start g call).2 = .goes phase) :
    phase.call = some call ∧ phase.stepsLeft < 3 := by
  cases call with
  | encode text options =>
    simp only [start] at h
    split at h <;> cases h
    exact ⟨rfl, Nat.lt_succ_self 2⟩
  | encodeBatch texts options =>
    simp only [start] at h
    split at h <;> cases h
    exact ⟨rfl, Nat.lt_succ_self 2⟩
  | tokenToId token => cases h
  | _ =>
    obtain rfl := Progress.goes.inj h
    exact ⟨rfl, by simp [Phase.stepsLeft]⟩

/-- A step that goes on stays inside the call, and closer to its answer. -/
theorem advance_goes {phase phase' : Phase} (h : advance g phase = some (g', .goes phase')) :
    phase'.call = phase.call ∧ phase'.stepsLeft < phase.stepsLeft := by
  cases phase with
  | idle => cases h
  | started call => exact start_goes (congrArg Prod.snd (Option.some.inj h))
  | acceptedBatch call texts options =>
    simp only [advance] at h
    split at h <;> cases h
    exact ⟨rfl, Nat.lt_succ_self 1⟩
  | accepted call text options =>
    cases h
    exact ⟨rfl, Nat.lt_succ_self 1⟩
  | decoded call =>
    cases h
    exact ⟨rfl, Nat.lt_succ_self 1⟩
  | encoded call status result error => cases h
  | encodedBatch call status results error => cases h
  | viewing call scratch data len => cases h

/-- **A client inside a call can always go on**, whatever the others do. -/
theorem advance_isSome_iff {phase : Phase} : (advance g phase).isSome ↔ phase ≠ .idle := by
  cases phase with
  | idle => exact ⟨nofun, fun h => absurd rfl h⟩
  | acceptedBatch call texts options =>
    refine iff_of_true ?_ nofun
    simp only [advance]
    split <;> rfl
  | _ => exact iff_of_true rfl nofun

/-! ## Runs -/

section Runs
variable {Client : Type} {t : HFTokenizer crates}

/-- At most one client is inside `Decode`, and at most one inside `IdToToken`. -/
theorem mutex_inside (scratch : Scratch) :
    Mutex (system t : System Client (Shared crates) Phase (Event Client))
      (Phase.Inside scratch) where
  idle := nofun
  enter := by
    intro c s g l event hstep hin hout d _
    cases hstep with
    | begins call hidle hfree => exact hfree scratch hin d
    | goes h =>
      -- a step inside a call stays inside the same call
      rw [Phase.Inside, (advance_goes h).1] at hin
      exact absurd hin hout
    | answers hcall h => cases hin

/-- The outline of the clients. -/
theorem outline (haligned : crates.BatchAligned) (hself : SameLoad t t) :
    Outline (system t : System Client (Shared crates) Phase (Event Client)) Phase.Inside
      (fun g => SameLoad t g.tokenizer) (At t)
      (fun event => event.answer = answerOf t event.call) where
  start := by
    rintro g rfl
    exact ⟨hself, trivial⟩
  mutex := mutex_inside
  own := by
    intro c s g l event hstep hload hat
    cases hstep with
    | begins call hidle hfree => exact ⟨hload, trivial⟩
    | goes h =>
      obtain ⟨hload', -, hmeets⟩ := advance_spec haligned hload hat h
      exact ⟨hload', hmeets⟩
    | answers hcall h => exact ⟨(advance_spec haligned hload hat h).1, trivial⟩
  other := by
    intro c s g l event hstep hload hat l' hat' hapart
    have hframe : ∀ {progress}, advance s.shared (s.locals c) = some (g, progress) → At t g l' := by
      intro progress h
      obtain ⟨-, hscratch, -⟩ := advance_spec haligned hload hat h
      -- the scratch string that the other client relies on is in its own section
      exact hat'.frame fun scratch hin => hscratch scratch fun hc => hapart scratch hc hin
    cases hstep with
    | begins call hidle hfree => exact hat'
    | goes h => exact hframe h
    | answers hcall h => exact hframe h
  emits := by
    intro c s g l event hstep hload hat
    cases hstep with
    | answers hcall h => exact (advance_spec haligned hload hat h).2.2 _ hcall

variable [DecidableEq Client]

/-- **Isolation.**  However the steps of the clients of one loaded tokenizer
interleave, every call is answered as the same call alone on a fresh load of the
same blob. -/
theorem isolated (lib : SentencePieceLibrary) (cs : CharSign)
    (haligned : crates.BatchAligned) {blob : Blob} (hload : blob.Loads t)
    {s : Config Client (Shared crates) Phase} {events : List (Event Client)}
    (hrun : Run (system t) s events) :
    ∀ event ∈ events, ∀ t' : HFTokenizer crates, blob.Loads t' → ∀ σ,
      event.answer = alone lib cs t' event.call σ := by
  intro event hevent t' hload' σ
  have hsame := hload.sameLoad hload'
  obtain ⟨-, -, hanswers⟩ := (outline haligned (hload.sameLoad hload)).run hrun
  obtain ⟨box, hbox⟩ : ∃ box, t'.handle = some box := by
    cases hsame
    exact ⟨_, rfl⟩
  rw [alone_eq lib cs haligned hbox, hsame.answerOf_eq]
  exact hanswers event hevent

/-- A client encodes `"ab"` while another one is inside `Decode`, between
`tokenizers_decode` and `tokenizers_get_decode_str`. -/
theorem isolated_plain : ∃ s, ∃ ids text : Answer,
    Run (system (SampleLibrary.loaded SampleLibrary.plainTokenizer)) s
      [⟨1, .encode (strBytes "ab") {}, ids⟩, (⟨0, .decode [0, 1] false, text⟩ : Event Nat)] ∧
    ids = alone SampleLibrary.sentencePiece .signed
      (SampleLibrary.loaded SampleLibrary.plainTokenizer) (.encode (strBytes "ab") {})
      Ledger.initial ∧
    text = alone SampleLibrary.sentencePiece .signed
      (SampleLibrary.loaded SampleLibrary.plainTokenizer) (.decode [0, 1] false)
      Ledger.initial := by
  have hload : (Blob.json (strBytes SampleLibrary.plainJson)).Loads
      (SampleLibrary.loaded SampleLibrary.plainTokenizer) :=
    SampleLibrary.loaded_made SampleLibrary.fromStr_plain
  obtain ⟨s, ids, text, hrun⟩ : ∃ s, ∃ ids text : Answer,
      Run (system (SampleLibrary.loaded SampleLibrary.plainTokenizer)) s
        [⟨1, .encode (strBytes "ab") {}, ids⟩, (⟨0, .decode [0, 1] false, text⟩ : Event Nat)] := by
    have h₀ : Run (system (SampleLibrary.loaded SampleLibrary.plainTokenizer))
        ⟨⟨_, Ledger.initial⟩, fun _ : Nat => .idle⟩ [] := .start rfl
    have h₁ := h₀.step (show Step 0 _ _ _ _ from
      .begins (.decode [0, 1] false) rfl fun _ _ _ => nofun)
    have h₂ := h₁.step (show Step 0 _ _ _ _ from .goes rfl)
    have h₃ := h₂.step (show Step 1 _ _ _ _ from .begins (.encode (strBytes "ab") {}) rfl nofun)
    have h₄ := h₃.step (show Step 1 _ _ _ _ from .goes rfl)
    have h₅ := h₄.step (show Step 1 _ _ _ _ from .goes rfl)
    have h₆ := h₅.step (show Step 0 _ _ _ _ from .goes rfl)
    have h₇ := h₆.step (show Step 1 _ _ _ _ from .answers rfl rfl)
    exact ⟨_, _, _, h₇.step (show Step 0 _ _ _ _ from .answers rfl rfl)⟩
  have hanswers := isolated SampleLibrary.sentencePiece .signed
    SampleLibrary.view_documented.padded.batchAligned hload hrun
  refine ⟨s, ids, text, hrun, ?_, ?_⟩
  · exact hanswers _ (List.mem_cons_self ..) _ hload _
  · exact hanswers _ (List.mem_cons_of_mem _ (List.mem_cons_self ..)) _ hload _

end Runs

end SharedHandle

end TokenizersCpp
