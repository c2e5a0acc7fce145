import Mathlib.Data.List.MinMax
import TokenizersCpp.Wrapper

/-!
# Padding in the Hugging Face library

A `tokenizer.json` may carry padding parameters, which the wrapper keeps as
loaded.  The library pads the encoding of a single call as a batch of one, and
the encodings of a batch call once more, all together.  With a fixed size the
second padding changes nothing; with the strategy `BatchLongest` it does, unless
the padded encodings already have one length.

`PaddingView.Documented` states what is assumed of the library here.
-/

namespace TokenizersCpp

open Traversal

/-- `PaddingStrategy`. -/
inductive PaddingStrategy
  | batchLongest
  | fixed (size : Nat)
deriving DecidableEq, Repr

/-- `PaddingDirection`. -/
inductive PaddingDirection
  | left
  | right
deriving DecidableEq, Repr

/-- `PaddingParams`, as far as it concerns token ids. -/
structure PaddingParams where
  strategy : PaddingStrategy
  direction : PaddingDirection
  padToMultipleOf : Option Nat
  padId : UInt32
deriving DecidableEq, Repr

/-- Rounds a length up to the next multiple. -/
def roundUp : Option Nat → Nat → Nat
  | none, n => n
  | some multiple, n =>
      if 0 < multiple ∧ 0 < n % multiple then n + (multiple - n % multiple) else n

namespace PaddingParams

/-- The length that encodings of the given lengths are padded to. -/
def padLength (params : PaddingParams) (lengths : List Nat) : Nat :=
  roundUp params.padToMultipleOf <|
    match params.strategy with
    | .batchLongest => lengths.foldr max 0
    | .fixed size => size

/-- Fills a list up to a length, on the side of the parameters. -/
def padWith {α : Type} (params : PaddingParams) (x : α) (target : Nat) (l : List α) : List α :=
  let padding := List.replicate (target - l.length) x
  match params.direction with
  | .left => padding ++ l
  | .right => l ++ padding

/-- `Encoding::pad`. -/
def pad (params : PaddingParams) (target : Nat) (ids : List UInt32) : List UInt32 :=
  params.padWith params.padId target ids

end PaddingParams

/-- `pad_encodings`, when there are padding parameters. -/
def padEncodings (padding : Option PaddingParams) (encodings : List (List UInt32)) :
    List (List UInt32) :=
  match padding with
  | none => encodings
  | some params => encodings.map (params.pad (params.padLength (encodings.map List.length)))

/-- The padding of a single call: a batch of one. -/
def padEncoding (padding : Option PaddingParams) (ids : List UInt32) : List UInt32 :=
  match padding with
  | none => ids
  | some params => params.pad (params.padLength [ids.length]) ids

/-! ## What padding does -/

theorem roundUp_idem (multiple : Option Nat) (n : Nat) :
    roundUp multiple (roundUp multiple n) = roundUp multiple n := by
  cases multiple with
  | none => rfl
  | some m =>
    by_cases h : 0 < m ∧ 0 < n % m
    · have hround : roundUp (some m) n = n + (m - n % m) := if_pos h
      have hlt := Nat.mod_lt n h.1
      have hmul : (n + (m - n % m)) % m = 0 := by
        have hsum : n + (m - n % m) = m * (n / m) + m := by
          have := Nat.div_add_mod n m
          omega
        rw [hsum, Nat.add_mod_right, Nat.mul_mod_right]
      rw [hround, roundUp, if_neg (by omega)]
    · have hround : roundUp (some m) n = n := if_neg h
      rw [hround, hround]

theorem le_roundUp (multiple : Option Nat) (n : Nat) : n ≤ roundUp multiple n := by
  cases multiple with
  | none => exact le_refl n
  | some m =>
    rw [roundUp]
    split <;> omega

/-- The next multiple is the least one. -/
theorem roundUp_le {multiple : Option Nat} {n k : Nat} (hle : n ≤ k)
    (hk : roundUp multiple k = k) : roundUp multiple n ≤ k := by
  cases multiple with
  | none => exact hle
  | some m =>
    by_cases h : 0 < m ∧ 0 < n % m
    · have hround : roundUp (some m) n = n + (m - n % m) := if_pos h
      have hmul : k % m = 0 := by
        by_contra hne
        rw [roundUp, if_pos ⟨h.1, Nat.pos_of_ne_zero hne⟩] at hk
        have := Nat.mod_lt k h.1
        omega
      have hn := Nat.div_add_mod n m
      have hk := Nat.div_add_mod k m
      -- the quotient of `k` is larger, since `n` has a remainder and `k` has none
      have hquot : n / m + 1 ≤ k / m := by
        by_contra hlt
        have := Nat.mul_le_mul_left m (show k / m ≤ n / m by omega)
        omega
      have := Nat.mul_le_mul_left m hquot
      rw [Nat.mul_add] at this
      omega
    · have hround : roundUp (some m) n = n := if_neg h
      rwa [hround]

namespace PaddingParams

variable (params : PaddingParams)

/-- `BatchLongest` pads every list of a batch to a length that it does not exceed. -/
theorem le_padLength (hstrategy : params.strategy = .batchLongest) {lengths : List Nat} {l : Nat}
    (hl : l ∈ lengths) : l ≤ params.padLength lengths := by
  rw [padLength, hstrategy]
  exact (List.le_max_of_le hl (le_refl l)).trans (le_roundUp _ _)

/-- It is the least such length that needs no rounding. -/
theorem padLength_le {lengths lengths' : List Nat} (h : params.strategy = .batchLongest →
    ∀ l ∈ lengths, l ≤ params.padLength lengths') :
    params.padLength lengths ≤ params.padLength lengths' := by
  cases hstrategy : params.strategy with
  | fixed size =>
    rw [padLength, padLength, hstrategy]
  | batchLongest =>
    have hmax : lengths.foldr max 0 ≤ params.padLength lengths' :=
      List.max_le_of_forall_le lengths _ (h hstrategy)
    have hrounded : roundUp params.padToMultipleOf (params.padLength lengths') =
        params.padLength lengths' := roundUp_idem _ _
    have hle := roundUp_le hmax hrounded
    rwa [padLength, hstrategy]

/-- A list that is long enough is not changed. -/
theorem padWith_of_le {α : Type} (x : α) {target : Nat} {l : List α} (h : target ≤ l.length) :
    params.padWith x target l = l := by
  have hzero : target - l.length = 0 := by omega
  rw [padWith, hzero]
  cases params.direction
  · exact List.nil_append l
  · exact List.append_nil l

theorem length_padWith {α : Type} (x : α) (target : Nat) (l : List α) :
    (params.padWith x target l).length = max target l.length := by
  rw [padWith]
  cases params.direction <;> simp only [List.length_append, List.length_replicate] <;> omega

theorem length_pad (target : Nat) (ids : List UInt32) :
    (params.pad target ids).length = max target ids.length :=
  params.length_padWith params.padId target ids

/-- Padding in two steps is padding in one. -/
theorem padWith_padWith {α : Type} (x : α) {mid target : Nat} (hle : mid ≤ target) (l : List α) :
    params.padWith x target (params.padWith x mid l) = params.padWith x target l := by
  have hcount : target - (mid - l.length + l.length) + (mid - l.length) = target - l.length := by
    omega
  have hcount' : mid - l.length + (target - (l.length + (mid - l.length))) =
      target - l.length := by
    omega
  simp only [padWith]
  cases params.direction with
  | left =>
    simp only [List.length_append, List.length_replicate]
    rw [← List.append_assoc, List.replicate_append_replicate, hcount]
  | right =>
    simp only [List.length_append, List.length_replicate]
    rw [List.append_assoc, List.replicate_append_replicate, hcount']

/-- A list that is too short is traversed with the filler in front of it or behind. -/
theorem mapM_padWith {α β ε : Type} {f : α → Except ε β} {x : α} {target : Nat} {l : List α}
    {out : List β} (h : l.length < target) :
    (params.padWith x target l).mapM f = .ok out ↔
      ∃ own, l.mapM f = .ok own ∧ ∃ y, f x = .ok y ∧ out = params.padWith y target own := by
  have hn : target - l.length ≠ 0 := by omega
  simp only [padWith]
  cases params.direction with
  | left =>
    simp only [mapM_append_eq_ok, mapM_replicate_eq_ok hn]
    constructor
    · rintro ⟨_, ⟨y, hy, rfl⟩, own, hown, rfl⟩
      exact ⟨own, hown, y, hy, by rw [length_of_mapM hown]⟩
    · rintro ⟨own, hown, y, hy, rfl⟩
      exact ⟨_, ⟨y, hy, rfl⟩, own, hown, by rw [length_of_mapM hown]⟩
  | right =>
    simp only [mapM_append_eq_ok, mapM_replicate_eq_ok hn]
    constructor
    · rintro ⟨own, hown, _, ⟨y, hy, rfl⟩, rfl⟩
      exact ⟨own, hown, y, hy, by rw [length_of_mapM hown]⟩
    · rintro ⟨own, hown, y, hy, rfl⟩
      exact ⟨own, hown, _, ⟨y, hy, rfl⟩, by rw [length_of_mapM hown]⟩

/-- Lengths that `BatchLongest` finds alike are padded as one of them. -/
theorem padLength_eq {lengths : List Nat} {n : Nat} (hne : lengths ≠ [])
    (h : params.strategy = .batchLongest → ∀ l ∈ lengths, l = n) :
    params.padLength lengths = params.padLength [n] := by
  rw [padLength, padLength]
  cases hstrategy : params.strategy with
  | fixed size => rfl
  | batchLongest =>
    obtain ⟨l, lengths, rfl⟩ := List.exists_cons_of_ne_nil hne
    have hlongest : (l :: lengths).foldr max 0 = max n 0 := by
      rw [List.eq_replicate_of_mem (h hstrategy), List.length_cons, List.replicate_succ]
      induction lengths.length with
      | zero => rfl
      | succ k ih =>
        rw [List.replicate_succ, List.foldr_cons, ih]
        exact max_eq_right (Nat.le_max_left n 0)
    exact congrArg _ hlongest

/-- **A padded list is long enough**: padded once more by itself it keeps its length. -/
theorem padLength_padEncoding_le (ids : List UInt32) :
    params.padLength [(params.pad (params.padLength [ids.length]) ids).length] ≤
      (params.pad (params.padLength [ids.length]) ids).length := by
  rw [length_pad]
  cases hstrategy : params.strategy with
  | fixed size =>
    -- the target does not depend on the list
    have htarget : ∀ lengths, params.padLength lengths = roundUp params.padToMultipleOf size :=
      fun lengths => by rw [padLength, hstrategy]
    rw [htarget, htarget]
    exact le_max_left _ _
  | batchLongest =>
    -- the length is rounded already
    have htarget : ∀ n, params.padLength [n] = roundUp params.padToMultipleOf n := by
      intro n
      rw [padLength, hstrategy]
      exact congrArg _ (Nat.max_zero n)
    have hrounded : max (params.padLength [ids.length]) ids.length =
        roundUp params.padToMultipleOf ids.length := by
      rw [htarget]
      exact max_eq_left (le_roundUp _ _)
    rw [hrounded, htarget, roundUp_idem]

end PaddingParams

/-! ## What is assumed of the library -/

/-- A view of the library's tokenizers: their padding parameters, and the ids of
a single text before they are padded. -/
structure PaddingView (crates : Crates) where
  padding : crates.Tokenizer → Option PaddingParams
  unpadded : crates.Tokenizer → String → Bool → CrateCall (List UInt32)

/-- **What the library documents about padding**: a single encoding is padded as
a batch of one; a batch is encoded text by text and then padded together; the
policy setters keep the padding parameters, and a tokenizer built from a model
has none. -/
structure PaddingView.Documented {crates : Crates} (view : PaddingView crates) : Prop where
  encode_eq : ∀ tokenizer text addSpecialTokens,
    crates.encode tokenizer text addSpecialTokens =
      (view.unpadded tokenizer text addSpecialTokens).map (padEncoding (view.padding tokenizer))
  encodeBatch_eq : ∀ tokenizer texts addSpecialTokens,
    crates.encodeBatch tokenizer texts addSpecialTokens =
      (texts.mapM fun text => crates.encode tokenizer text addSpecialTokens).map
        (padEncodings (view.padding tokenizer))
  setEncodeSpecialTokens_padding : ∀ tokenizer value tokenizer',
    crates.setEncodeSpecialTokens tokenizer value = .ok tokenizer' →
      view.padding tokenizer' = view.padding tokenizer
  withAddedVocabulary_padding : ∀ tokenizer vocabulary tokenizer',
    crates.withAddedVocabulary tokenizer vocabulary = .ok tokenizer' →
      view.padding tokenizer' = view.padding tokenizer
  tokenizerNew_padding : ∀ bpe, view.padding (crates.tokenizerNew bpe) = none
  withPreTokenizer_padding : ∀ tokenizer byteLevel,
    view.padding (crates.withPreTokenizer tokenizer byteLevel) = view.padding tokenizer
  withDecoder_padding : ∀ tokenizer byteLevel,
    view.padding (crates.withDecoder tokenizer byteLevel) = view.padding tokenizer

theorem length_padEncodings (padding : Option PaddingParams) (encodings : List (List UInt32)) :
    (padEncodings padding encodings).length = encodings.length := by
  cases padding with
  | none => rfl
  | some params => exact List.length_map _

namespace PaddingView.Documented

variable {crates : Crates} {view : PaddingView crates} (doc : view.Documented)
include doc

theorem batchAligned : crates.BatchAligned := by
  intro tokenizer texts addSpecialTokens batch h
  rw [doc.encodeBatch_eq] at h
  cases hmap : texts.mapM fun text => crates.encode tokenizer text addSpecialTokens with
  | error e =>
    rw [hmap] at h
    cases h
  | ok encodings =>
    rw [hmap] at h
    rw [← Except.ok.inj h, length_padEncodings, length_of_mapM hmap]

/-- A batch of no text has no encoding. -/
theorem encodeBatch_nil (tokenizer : crates.Tokenizer) (addSpecialTokens : Bool) :
    crates.encodeBatch tokenizer [] addSpecialTokens = .ok [] := by
  have hlen : (padEncodings (view.padding tokenizer) []).length = 0 := length_padEncodings _ []
  rw [doc.encodeBatch_eq]
  exact congrArg Except.ok (List.length_eq_zero_iff.mp hlen)

/-- A single encoding that returns is padded. -/
theorem padded_of_encode {tokenizer : crates.Tokenizer} {text : String} {addSpecialTokens : Bool}
    {ids : List UInt32} (h : crates.encode tokenizer text addSpecialTokens = .ok ids) :
    ∃ unpadded, ids = padEncoding (view.padding tokenizer) unpadded := by
  rw [doc.encode_eq] at h
  cases hun : view.unpadded tokenizer text addSpecialTokens with
  | error e =>
    rw [hun] at h
    cases h
  | ok unpadded =>
    rw [hun] at h
    exact ⟨unpadded, (Except.ok.inj h).symm⟩

end PaddingView.Documented

end TokenizersCpp
