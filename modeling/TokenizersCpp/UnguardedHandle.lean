import TokenizersCpp.HandleIsolation

/-!
# Clients that wait for nobody

The clients of `SharedHandle`, where nothing keeps two of them out of `Decode` or
`IdToToken` at the same time.  `huggingface_tokenizer.cc` promises that `Encode` and
`EncodeBatch` are safe for concurrent calls, and that decoding and lookup are not covered.
`isolated_unguarded_iff` says where the line is: a call is answered as if it were alone,
in every run, just when it uses no scratch string.  `TokenToId` is on the safe side, too.

A call that uses one can be raced (`ReadsFreed`): it holds a view of the string, another
client's call assigns the string, and the copy reads the buffer that is gone.  Of a view
of length 0 no byte is read, so calls whose answer is the empty text are left out, such as
`IdToToken` of an id without a token.
-/

namespace TokenizersCpp

open Interleaving

namespace SharedHandle

variable {crates : Crates} {Client : Type}

/-- The steps of client `c`, as in `Step`; a client begins any call at any time. -/
inductive FreeStep (c : Client) (s : Config Client (Shared crates) Phase) :
    Shared crates → Phase → Option (Event Client) → Prop
  | begins (call : Call) (hidle : s.locals c = .idle) :
      FreeStep c s s.shared (.started call) none
  | goes {g : Shared crates} {phase : Phase}
      (h : advance s.shared (s.locals c) = some (g, .goes phase)) : FreeStep c s g phase none
  | answers {g : Shared crates} {call : Call} {answer : Answer}
      (hcall : (s.locals c).call = some call)
      (h : advance s.shared (s.locals c) = some (g, .answers answer)) :
      FreeStep c s g .idle (some ⟨c, call, answer⟩)

/-- The clients of the tokenizer `t`. -/
def freeSystem (t : HFTokenizer crates) :
    System Client (Shared crates) Phase (Event Client) where
  start g := g.tokenizer = t
  idle := .idle
  step := FreeStep

/-! ## Calls without a scratch string -/

section Isolated
variable {t : HFTokenizer crates} {g g' : Shared crates}

/-- No step changes what was loaded. -/
theorem advance_sameLoad (hload : SameLoad t g.tokenizer) {phase : Phase} {progress : Progress}
    (h : advance g phase = some (g', progress)) : SameLoad t g'.tokenizer := by
  cases phase with
  | idle => cases h
  | started call =>
    obtain ⟨rfl, -⟩ := Prod.mk.inj (Option.some.inj h)
    exact (start_spec hload call).1
  | acceptedBatch call texts options =>
    simp only [advance] at h
    split at h
    · obtain ⟨rfl, -⟩ := Prod.mk.inj (Option.some.inj h)
      exact hload
    · obtain ⟨rfl, -⟩ := Prod.mk.inj (Option.some.inj h)
      exact hload
  | _ =>
    obtain ⟨rfl, -⟩ := Prod.mk.inj (Option.some.inj h)
    exact hload

/-- The assertion of a client whose call uses no scratch string. -/
def FreeAt (t : HFTokenizer crates) (g : Shared crates) (phase : Phase) : Prop :=
  phase.call.bind Call.scratch = none → At t g phase

theorem FreeAt.frame {phase : Phase} (hat : FreeAt t g phase) : FreeAt t g' phase :=
  fun hnone => (hat hnone).frame fun _ hin => by
    rw [Phase.Inside, hnone] at hin
    cases hin

/-- The outline of the clients; there are no sections. -/
theorem freeOutline (haligned : crates.BatchAligned) (hself : SameLoad t t) :
    Outline (freeSystem t : System Client (Shared crates) Phase (Event Client))
      (fun section' : Empty => section'.elim) (fun g => SameLoad t g.tokenizer) (FreeAt t)
      (fun event => event.call.scratch = none → event.answer = answerOf t event.call) where
  start := by
    rintro g rfl
    exact ⟨hself, fun _ => trivial⟩
  mutex := nofun
  own := by
    intro c s g l event hstep hload hat
    cases hstep with
    | begins call hidle => exact ⟨hload, fun _ => trivial⟩
    | goes h =>
      refine ⟨advance_sameLoad hload h, fun hnone => ?_⟩
      -- the client stays inside its call
      rw [(advance_goes h).1] at hnone
      exact (advance_spec haligned hload (hat hnone) h).2.2
    | answers hcall h => exact ⟨advance_sameLoad hload h, fun _ => trivial⟩
  other := fun _ _ _ _ hat' _ => hat'.frame
  emits := by
    intro c s g l event hstep hload hat
    cases hstep with
    | answers hcall h =>
      intro hnone
      have hcalls : (s.locals c).call.bind Call.scratch = none := by
        rw [hcall]
        exact hnone
      exact (advance_spec haligned hload (hat hcalls) h).2.2 _ hcall

end Isolated

/-! ## Calls with one -/

/-- In the state `s`, client `c` is inside `call` with a view of its scratch string that
is not empty; a step of client `d`, to `g` and `phase`, frees the buffer of the view; and
the next step of `c` reads it. -/
structure ReadsFreed [DecidableEq Client] (t : HFTokenizer crates) (c d : Client) (call : Call)
    (scratch : Scratch) (data len : Nat) (s : Config Client (Shared crates) Phase)
    (g : Shared crates) (phase : Phase) : Prop where
  run : Run (freeSystem t) s []
  uses : call.scratch = some scratch
  views : s.locals c = .viewing call scratch data len
  holds : ∃ str, s.shared.scratch scratch = some str ∧ str.view = (data, len)
  nonempty : 0 < len
  step : FreeStep d s g phase none
  frees : ∃ str, g.scratch scratch = some str ∧ str.read data len = none
  reads : Run (freeSystem t) ((s.move d g phase).move c g .idle) [⟨c, call, .text none⟩]

section Race
variable {t : HFTokenizer crates} {g : Shared crates} {scratch : Scratch} {call : Call}

/-- A call that uses a scratch string gives it a new buffer in its first step. -/
theorem start_assigns (hload : SameLoad t g.tokenizer) (hcall : call.scratch = some scratch)
    {str : ScratchString} (hstr : g.scratch scratch = some str) :
    ∃ g' phase str', start g call = (g', .goes phase) ∧ g'.scratch scratch = some str' ∧
      str'.buffer = str.buffer + 1 := by
  obtain ⟨tokenizer, σ⟩ := g
  cases hload with
  | intro addr addr' tokenizer variants supports d d' i i' =>
  cases call with
  | decode ids skipSpecialTokens =>
    obtain rfl := Option.some.inj hcall
    obtain rfl := Option.some.inj hstr
    simp only [start, tokenizersDecode_box _ _ _ (List.length_map ..).symm]
    exact ⟨_, _, _, rfl, rfl, rfl⟩
  | idToToken id =>
    obtain rfl := Option.some.inj hcall
    obtain rfl := Option.some.inj hstr
    exact ⟨_, _, _, rfl, rfl, rfl⟩
  | _ => cases hcall

variable [DecidableEq Client]

/-- Client `c` is inside a call, and the others are outside. -/
structure Inside (t : HFTokenizer crates) (c : Client) (phase : Phase)
    (s : Config Client (Shared crates) Phase) : Prop where
  run : Run (freeSystem t) s []
  load : SameLoad t s.shared.tokenizer
  at_ : At t s.shared phase
  self : s.locals c = phase
  others : ∀ d, d ≠ c → s.locals d = .idle

/-- It can go on. -/
theorem Inside.goes (haligned : crates.BatchAligned) {c : Client} {phase phase' : Phase}
    {s : Config Client (Shared crates) Phase} (h : Inside t c phase s) {g : Shared crates}
    (hstep : advance s.shared phase = some (g, .goes phase')) :
    Inside t c phase' (s.move c g phase') := by
  obtain ⟨hload, -, hat⟩ := advance_spec haligned h.load h.at_ hstep
  constructor
  · exact h.run.step (show FreeStep c s _ _ _ from .goes (h.self.symm ▸ hstep))
  · exact hload
  · exact hat
  · exact Config.move_locals_self ..
  · intro d hd
    rw [Config.move_locals_of_ne _ _ _ _ hd, h.others d hd]

/-- A client alone gets to its view of the scratch string. -/
theorem reaches_view (haligned : crates.BatchAligned) (hself : SameLoad t t)
    (hcall : call.scratch = some scratch) (c : Client) :
    ∃ s data len, Inside t c (.viewing call scratch data len) s := by
  have hstarted : Inside t c (.started call)
      ((⟨⟨t, Ledger.initial⟩, fun _ => .idle⟩ : Config Client (Shared crates) Phase).move c
        ⟨t, Ledger.initial⟩ (.started call)) := by
    have h₀ : Run (freeSystem t) ⟨⟨t, Ledger.initial⟩, fun _ : Client => .idle⟩ [] := .start rfl
    constructor
    · exact h₀.step (show FreeStep c _ _ _ _ from .begins call rfl)
    · exact hself
    · trivial
    · exact Config.move_locals_self ..
    · exact fun d hd => Config.move_locals_of_ne _ _ _ _ hd
  cases call with
  | decode ids skipSpecialTokens =>
    obtain rfl := Option.some.inj hcall
    exact ⟨_, _, _, (hstarted.goes haligned rfl).goes haligned rfl⟩
  | idToToken id =>
    obtain rfl := Option.some.inj hcall
    exact ⟨_, _, _, hstarted.goes haligned rfl⟩
  | _ => cases hcall

/-- **A second client races it**: the first one reads a buffer that was freed. -/
theorem race (haligned : crates.BatchAligned) (hself : SameLoad t t)
    (hcall : call.scratch = some scratch) (htext : answerOf t call ≠ .text (some []))
    {c d : Client} (hne : d ≠ c) :
    ∃ data len s g phase, ReadsFreed t c d call scratch data len s g phase := by
  obtain ⟨s, data, len, h⟩ := reaches_view haligned hself hcall c
  obtain ⟨-, str, hstr, hview, hanswer⟩ := h.at_
  obtain ⟨hdata, hlen⟩ := Prod.mk.inj hview
  obtain ⟨g, phase, str', hstart, hstr', hbuffer⟩ := start_assigns h.load hcall hstr
  have hpos : 0 < len := by
    rw [hlen, List.length_pos_iff]
    intro hempty
    rw [hempty] at hanswer
    exact htext hanswer
  -- `d` begins the same call, and its first step takes away the buffer that `c` views
  let s' := s.move d s.shared (.started call)
  have hrun : Run (freeSystem t) s' [] :=
    h.run.step (show FreeStep d s _ _ _ from .begins call (h.others d hne))
  have hstep : FreeStep d s' g phase none := .goes (by
    rw [Config.move_locals_self]
    exact congrArg some hstart)
  have hfreed : str'.read data len = none := by
    refine if_neg ?_
    rw [hbuffer, hdata]
    exact Nat.ne_of_lt (Nat.lt_succ_self _)
  have hviews : s'.locals c = .viewing call scratch data len := by
    rw [Config.move_locals_of_ne _ _ _ _ hne.symm, h.self]
  have hviews' : (s'.move d g phase).locals c = .viewing call scratch data len := by
    rw [Config.move_locals_of_ne _ _ _ _ hne.symm, hviews]
  have hread : advance g (.viewing call scratch data len) = some (g, .answers (.text none)) := by
    obtain ⟨box, hbox, rfl⟩ := Option.map_eq_some_iff.mp hstr'
    rw [advance, hbox, Option.bind_some, hfreed]
  refine ⟨data, len, s', g, phase, ?_⟩
  constructor
  · exact hrun
  · exact hcall
  · exact hviews
  · exact ⟨str, hstr, hview.symm⟩
  · exact hpos
  · exact hstep
  · exact ⟨str', hstr', hfreed⟩
  · refine (hrun.step hstep).step (show FreeStep c _ g _ _ from .answers ?_ ?_)
    · rw [hviews']
      rfl
    · rw [hviews']
      exact hread

/-- A loaded tokenizer answers such a call with a text. -/
theorem answerOf_of_scratch (hself : SameLoad t t) (hcall : call.scratch = some scratch) :
    ∃ text, answerOf t call = .text (some text) := by
  cases hself with
  | intro addr addr' tokenizer variants supports d d' i i' =>
  cases call with
  | decode ids skipSpecialTokens => exact ⟨_, rfl⟩
  | idToToken id => exact ⟨_, rfl⟩
  | _ => cases hcall

/-- **What is safe for concurrent calls.**  However the steps of any number of clients of a
loaded tokenizer interleave, a call whose text, if it answers with one, is not empty is
answered as it is alone on a fresh load, if and only if it uses no scratch string.  If it
does use one, then in some run it reads a string that another client's call has freed. -/
theorem isolated_unguarded_iff (lib : SentencePieceLibrary) (cs : CharSign)
    (haligned : crates.BatchAligned) {blob : Blob} (hload : blob.Loads t) {c d : Client}
    (hne : d ≠ c) (htext : alone lib cs t call Ledger.initial ≠ .text (some [])) :
    ((∀ s events, Run (freeSystem t) s events → ∀ event : Event Client, event ∈ events →
      event.call = call → ∀ t' : HFTokenizer crates, blob.Loads t' → ∀ σ,
        event.answer = alone lib cs t' call σ) ↔ call.scratch = none) ∧
    ∀ scratch, call.scratch = some scratch →
      ∃ data len s g phase, ReadsFreed t c d call scratch data len s g phase := by
  have halone : ∀ t' : HFTokenizer crates, blob.Loads t' → ∀ σ,
      alone lib cs t' call σ = answerOf t call := by
    intro t' hload' σ
    have hsame := hload.sameLoad hload'
    obtain ⟨box, hbox⟩ : ∃ box, t'.handle = some box := by
      cases hsame
      exact ⟨_, rfl⟩
    rw [alone_eq lib cs haligned hbox, hsame.answerOf_eq]
  have hself := hload.sameLoad hload
  rw [halone t hload] at htext
  have hrace : ∀ scratch, call.scratch = some scratch →
      ∃ data len s g phase, ReadsFreed t c d call scratch data len s g phase :=
    fun _ hcall => race haligned hself hcall htext hne
  refine ⟨⟨fun hisolated => ?_, ?_⟩, hrace⟩
  · cases hcall : call.scratch with
    | none => rfl
    | some scratch =>
      obtain ⟨data, len, s, g, phase, hfreed⟩ := hrace scratch hcall
      have hanswer := hisolated _ _ hfreed.reads _ List.mem_cons_self rfl t hload Ledger.initial
      rw [halone t hload] at hanswer
      obtain ⟨text, htext⟩ := answerOf_of_scratch hself hcall
      rw [htext] at hanswer
      cases hanswer
  · rintro hcall s events hrun event hevent rfl t' hload' σ
    obtain ⟨-, -, hanswers⟩ := (freeOutline haligned hself).run hrun
    rw [halone t' hload']
    exact hanswers event hevent hcall

/-- Two clients that decode at the same time disturb each other: the client 0 reads what
the client 1 has freed. -/
theorem isolated_unguarded_decode :
    (¬ ∀ s events,
      Run (freeSystem (SampleLibrary.loaded SampleLibrary.plainTokenizer)) s events →
        ∀ event : Event Nat, event ∈ events → event.call = .decode [0] false →
          ∀ t' : HFTokenizer SampleLibrary.crates,
            (Blob.json (strBytes SampleLibrary.plainJson)).Loads t' → ∀ σ,
              event.answer =
                alone SampleLibrary.sentencePiece .signed t' (.decode [0] false) σ) ∧
    ∃ data len s g phase, ReadsFreed (SampleLibrary.loaded SampleLibrary.plainTokenizer) 0 1
      (.decode [0] false) .decodeStr data len s g phase := by
  have hload : (Blob.json (strBytes SampleLibrary.plainJson)).Loads
      (SampleLibrary.loaded SampleLibrary.plainTokenizer) :=
    SampleLibrary.loaded_made SampleLibrary.fromStr_plain
  have hanswer : alone SampleLibrary.sentencePiece .signed
      (SampleLibrary.loaded SampleLibrary.plainTokenizer) (.decode [0] false) Ledger.initial ≠
        .text (some []) := by
    have htext : strBytes "a" ≠ [] := by decide
    exact fun h => htext (Option.some.inj (Answer.text.inj h))
  obtain ⟨hiff, hfreed⟩ := isolated_unguarded_iff SampleLibrary.sentencePiece .signed
    SampleLibrary.view_documented.padded.batchAligned hload Nat.one_ne_zero hanswer
  refine ⟨fun hisolated => ?_, hfreed _ rfl⟩
  cases hiff.mp hisolated

end Race

end SharedHandle

end TokenizersCpp
