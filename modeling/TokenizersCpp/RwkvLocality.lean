import Mathlib.Logic.Relation
import TokenizersCpp.RwkvGreedy

/-!
# RWKV encoding is local and resumable

The loop of `EncodeImpl` as a step relation on its position and the ids found so
far.  An iteration reads at most as many bytes as the longest word has, so two
texts that agree up to some length make the same iterations in front of it
(`TokenAt.congr`); and the loop does not look back, so it can be resumed at any
start offset (`encodeImpl_resume`).
-/

namespace TokenizersCpp

open LongestMatch

namespace RWKVWorldTokenizer

/-! ## Iterations -/

section Iterations
variable (cs : CharSign) (t : RWKVWorldTokenizer) (str : Bytes)

/-- One iteration of the loop of `EncodeImpl`, from and to a position together
with the ids found so far. -/
def LoopStep (a b : Nat × List Int32) : Prop :=
  a.1 < str.length ∧ ∃ pfx tokenId,
    t.tree.findLongestPrefix cs (str.drop a.1) = .ok (pfx, tokenId) ∧
      b = (a.1 + pfx.length, a.2 ++ [tokenId])

/-- The loop reaches the second state from the first. -/
abbrev LoopSteps : Nat × List Int32 → Nat × List Int32 → Prop :=
  Relation.ReflTransGen (LoopStep cs t str)

/-- The token that the loop finds at index `k` starts at the offset `p`, whatever
happens to the loop later. -/
def TokenAt (k p : Nat) (id : Int32) : Prop :=
  ∃ ids q, ids.length = k ∧ LoopSteps cs t str (0, []) (p, ids) ∧
    LoopStep cs t str (p, ids) (q, ids ++ [id])

variable {cs t str}

theorem LoopStep.encodeLoop_eq {a b : Nat × List Int32} (h : LoopStep cs t str a b) :
    t.encodeLoop cs str a.1 a.2 = t.encodeLoop cs str b.1 b.2 := by
  obtain ⟨hlt, pfx, tokenId, hfound, rfl⟩ := h
  rw [encodeLoop, dif_pos hlt]
  split
  · rename_i e he
    rw [hfound] at he
    cases he
  · rename_i pfx' tokenId' hok
    rw [hfound] at hok
    obtain ⟨rfl, rfl⟩ := Prod.mk.inj (Except.ok.inj hok)
    rfl

theorem LoopSteps.encodeLoop_eq {a b : Nat × List Int32} (h : LoopSteps cs t str a b) :
    t.encodeLoop cs str a.1 a.2 = t.encodeLoop cs str b.1 b.2 := by
  induction h with
  | refl => rfl
  | tail _ hstep ih => exact ih.trans hstep.encodeLoop_eq

/-- Iterations move the position forward and only append ids. -/
theorem LoopSteps.grows {a b : Nat × List Int32} (h : LoopSteps cs t str a b) :
    a.1 ≤ b.1 ∧ a.2 <+: b.2 ∧ (a.2.length < b.2.length → a.1 < b.1) := by
  induction h with
  | refl => exact ⟨le_refl _, List.prefix_rfl, fun h => absurd h (lt_irrefl _)⟩
  | tail _ hstep ih =>
    obtain ⟨-, pfx, tokenId, hfound, rfl⟩ := hstep
    obtain ⟨hle, hpre, -⟩ := ih
    have hpos := findLongestPrefix_pos hfound
    exact ⟨by omega, hpre.trans (List.prefix_append ..), fun _ => by omega⟩

theorem loopStep_rightUnique : Relator.RightUnique (LoopStep cs t str) := by
  rintro a b c ⟨-, pfx, tokenId, hfound, rfl⟩ ⟨-, pfx', tokenId', hfound', rfl⟩
  rw [hfound] at hfound'
  obtain ⟨rfl, rfl⟩ := Prod.mk.inj (Except.ok.inj hfound')
  rfl

/-- The states that the loop reaches from one state come one after the other. -/
theorem LoopSteps.of_length_le {a b c : Nat × List Int32} (hb : LoopSteps cs t str a b)
    (hc : LoopSteps cs t str a c) (hlen : b.2.length ≤ c.2.length) :
    LoopSteps cs t str b c := by
  rcases Relation.ReflTransGen.total_of_right_unique loopStep_rightUnique hb hc with h | h
  · exact h
  · -- no id was appended, so `b` is `c`
    rcases h.cases_tail with rfl | ⟨d, hd, -, pfx, tokenId, -, rfl⟩
    · exact .refl
    · have hgrown := (LoopSteps.grows hd).2.1.length_le
      simp only [List.length_append, List.length_singleton] at hlen
      omega

/-- A loop that returns has come to the end of the text. -/
theorem loopSteps_of_encodeLoop {strIdx : Nat} {ids ts : List Int32}
    (h : t.encodeLoop cs str strIdx ids = .ok ts) :
    ∃ q, LoopSteps cs t str (strIdx, ids) (q, ts) := by
  induction hn : str.length - strIdx using Nat.strongRecOn generalizing strIdx ids with
  | ind n ih =>
    rw [encodeLoop] at h
    by_cases hlt : strIdx < str.length
    · rw [dif_pos hlt] at h
      split at h
      · cases h
      · rename_i pfx tokenId hfound
        have hpos := findLongestPrefix_pos hfound
        obtain ⟨q, hq⟩ := ih _ (by omega) h rfl
        exact ⟨q, .head ⟨hlt, pfx, tokenId, hfound, rfl⟩ hq⟩
    · rw [dif_neg hlt] at h
      obtain rfl := Except.ok.inj h
      exact ⟨strIdx, .refl⟩

/-! ## Tokens and their offsets -/

/-- Every id that the loop has found is the token at its index. -/
theorem LoopSteps.tokenAt {b : Nat × List Int32} (h : LoopSteps cs t str (0, []) b) {k : Nat}
    {id : Int32} (hk : b.2[k]? = some id) : ∃ p, TokenAt cs t str k p id := by
  induction h with
  | refl => cases hk
  | @tail b c hsteps hstep ih =>
    have hfull := hstep
    obtain ⟨-, pfx, tokenId, -, rfl⟩ := hstep
    by_cases hlt : k < b.2.length
    · rw [List.getElem?_append_left hlt] at hk
      exact ih hk
    · have hlen : k = b.2.length := by
        have hbound := (List.getElem?_eq_some_iff.mp hk).1
        rw [List.length_append, List.length_singleton] at hbound
        omega
      subst hlen
      rw [List.getElem?_concat_length] at hk
      obtain rfl := Option.some.inj hk
      exact ⟨b.1, b.2, _, rfl, hsteps, hfull⟩

/-- **The tokens are the returned ids.** -/
theorem tokenAt_iff {options : EncodeOptions} {ts : List Int32}
    (h : t.encodeImpl cs str options = .ok ts) {k : Nat} {id : Int32} :
    (∃ p, TokenAt cs t str k p id) ↔ ts[k]? = some id := by
  constructor
  · rintro ⟨p, ids, q, rfl, hsteps, hstep⟩
    -- the loop that has found `ids ++ [id]` goes on to `ts`
    have hfound : LoopSteps cs t str (0, []) (q, ids ++ [id]) := hsteps.tail hstep
    obtain ⟨q', hend⟩ := loopSteps_of_encodeLoop (hfound.encodeLoop_eq.symm.trans h)
    obtain ⟨us, rfl⟩ := hend.grows.2.1
    simp
  · obtain ⟨q, hend⟩ := loopSteps_of_encodeLoop h
    exact hend.tokenAt

theorem TokenAt.zero {p : Nat} {id : Int32} (h : TokenAt cs t str 0 p id) : p = 0 := by
  obtain ⟨ids, q, hlen, hsteps, -⟩ := h
  obtain rfl := List.length_eq_zero_iff.mp hlen
  have hback := hsteps.of_length_le .refl (le_refl 0)
  exact Nat.le_zero.mp hback.grows.1

/-- The start offsets increase. -/
theorem TokenAt.lt {k k' p p' : Nat} {id id' : Int32} (h : TokenAt cs t str k p id)
    (h' : TokenAt cs t str k' p' id') (hlt : k < k') : p < p' := by
  obtain ⟨ids, q, rfl, hsteps, -⟩ := h
  obtain ⟨ids', q', rfl, hsteps', -⟩ := h'
  exact (hsteps.of_length_le hsteps' hlt.le).grows.2.2 hlt

theorem TokenAt.unique {k p p' : Nat} {id id' : Int32} (h : TokenAt cs t str k p id)
    (h' : TokenAt cs t str k p' id') : p = p' := by
  obtain ⟨ids, q, rfl, hsteps, -⟩ := h
  obtain ⟨ids', q', hlen, hsteps', -⟩ := h'
  exact Nat.le_antisymm (hsteps.of_length_le hsteps' hlen.ge).grows.1
    (hsteps'.of_length_le hsteps hlen.le).grows.1

end Iterations

/-! ## Resuming -/

section Resume
variable {cs : CharSign} {t : RWKVWorldTokenizer}

/-- The loop at a position does what it does on the text from there on. -/
theorem encodeLoop_drop (str : Bytes) (p strIdx : Nat) (ids us : List Int32) :
    t.encodeLoop cs str (p + strIdx) (ids ++ us) =
      (t.encodeLoop cs (str.drop p) strIdx us).map (ids ++ ·) := by
  induction hn : str.length - (p + strIdx) using Nat.strongRecOn generalizing strIdx us with
  | ind n ih =>
    rw [encodeLoop, encodeLoop]
    by_cases hlt : p + strIdx < str.length
    · have hlt' : strIdx < (str.drop p).length := by
        rw [List.length_drop]
        omega
      rw [dif_pos hlt, dif_pos hlt', List.drop_drop]
      split
      · rfl
      · rename_i pfx tokenId hfound
        have hpos := findLongestPrefix_pos hfound
        rw [List.append_assoc, Nat.add_assoc]
        exact ih _ (by omega) _ _ rfl
    · have hge : ¬ strIdx < (str.drop p).length := by
        rw [List.length_drop]
        omega
      rw [dif_neg hlt, dif_neg hge]
      rfl

/-- **Encoding can be resumed** at the start offset of any of its tokens. -/
theorem encodeImpl_resume {str : Bytes} {options : EncodeOptions} {ts : List Int32}
    (h : t.encodeImpl cs str options = .ok ts) {k p : Nat} {id : Int32}
    (hp : TokenAt cs t str k p id) :
    t.encodeImpl cs (str.drop p) options = .ok (ts.drop k) := by
  obtain ⟨ids, q, rfl, hsteps, -⟩ := hp
  have hloop : t.encodeLoop cs str p ids = .ok ts := hsteps.encodeLoop_eq.symm.trans h
  have hdrop : t.encodeLoop cs str (p + 0) (ids ++ []) = _ := encodeLoop_drop str p 0 ids []
  rw [Nat.add_zero, List.append_nil, hloop] at hdrop
  rw [encodeImpl]
  cases hrest : t.encodeLoop cs (str.drop p) 0 [] with
  | error e =>
    rw [hrest] at hdrop
    cases hdrop
  | ok us =>
    rw [hrest] at hdrop
    rw [Except.ok.inj hdrop, List.drop_left]

end Resume

/-! ## Locality -/

section Locality
variable {cs : CharSign} {t : RWKVWorldTokenizer} {d : Bytes → Option Int32}
  (hrep : t.tree.Represents cs d) {bound : Nat} (hbound : Bounded d bound)
  {x y : Bytes} {len : Nat} (hxy : x.take len = y.take len) (hy : len ≤ y.length)
include hrep hbound hxy hy

/-- An iteration that cannot reach the end of the common part is made on both texts. -/
theorem LoopStep.congr {p : Nat} {ids : List Int32} {b : Nat × List Int32} (hp : p + bound ≤ len)
    (h : LoopStep cs t x (p, ids) b) : LoopStep cs t y (p, ids) b := by
  obtain ⟨-, pfx, tokenId, hfound, rfl⟩ := h
  obtain ⟨hlongest, hid, hok⟩ := hrep.findLongestPrefix_ok.mp hfound
  have hwindow : ∀ s : Bytes, (s.drop p).take bound = ((s.take len).drop p).take bound := by
    intro s
    rw [List.drop_take, List.take_take, Nat.min_eq_left (by omega)]
  have htake : (x.drop p).take bound = (y.drop p).take bound := by
    rw [hwindow x, hwindow y, hxy]
  have hpos := List.length_pos_of_ne_nil hlongest.ne_nil
  have hle := hbound pfx hlongest.word
  refine ⟨show p < y.length by omega, pfx, tokenId, ?_, rfl⟩
  exact hrep.findLongestPrefix_ok.mpr ⟨(hbound.isLongest_congr htake).mp hlongest, hid, hok⟩

theorem LoopSteps.congr {b : Nat × List Int32} (h : LoopSteps cs t x (0, []) b)
    (hb : b.1 + bound ≤ len) : LoopSteps cs t y (0, []) b := by
  induction h with
  | refl => exact .refl
  | @tail b c _ hstep ih =>
    have hle : b.1 ≤ c.1 := (LoopSteps.grows (.single hstep)).1
    have hb' : b.1 + bound ≤ len := by omega
    exact (ih hb').tail (hstep.congr hrep hbound hxy hy hb')

theorem TokenAt.congr {k p : Nat} {id : Int32} (h : TokenAt cs t x k p id)
    (hp : p + bound ≤ len) : TokenAt cs t y k p id := by
  obtain ⟨ids, q, hlen, hsteps, hstep⟩ := h
  exact ⟨ids, q, hlen, LoopSteps.congr hrep hbound hxy hy hsteps hp,
    hstep.congr hrep hbound hxy hy hp⟩

end Locality

variable {cs : CharSign} {m : Finmap fun _ : Int32 => Bytes} {t : RWKVWorldTokenizer}

/-- **RWKV encoding is local and resumable.**  When encoding returns, its ids are
the tokens of the loop, at increasing offsets, and encoding the rest of the text
from the offset of a token returns the ids from that token on.  A token that
starts at least the length of the longest word before the end of a text stays
where it is, with all earlier ones, when something is appended to the text; and
two texts share every token that starts that long before the end of what they
have in common. -/
theorem encode_local (h : LoadedFrom cs m t) {bound : Nat}
    (hbound : ∀ id w, m.lookup id = some w → w.length ≤ bound) :
    (∀ s options ts, t.encodeImpl cs s options = .ok ts →
      (∀ k id, (∃ p, TokenAt cs t s k p id) ↔ ts[k]? = some id) ∧
      (∀ p id, TokenAt cs t s 0 p id → p = 0) ∧
      (∀ k k' p p' id id', TokenAt cs t s k p id → TokenAt cs t s k' p' id' → k < k' → p < p') ∧
      ∀ k p id, TokenAt cs t s k p id →
        t.encodeImpl cs (s.drop p) options = .ok (ts.drop k)) ∧
    (∀ s u k p id, TokenAt cs t (s ++ u) k p id → p + bound ≤ s.length →
      ∀ j, j ≤ k → ∀ q i, TokenAt cs t s j q i ↔ TokenAt cs t (s ++ u) j q i) ∧
    ∀ x y len, x.take len = y.take len → len ≤ x.length → len ≤ y.length →
      ∀ k p id, p + bound ≤ len → (TokenAt cs t x k p id ↔ TokenAt cs t y k p id) := by
  have hrep := h.represents
  have hbounded : Bounded (fun p => t.word2idx.lookup p) bound := by
    intro w hw
    obtain ⟨i, hi⟩ := Option.isSome_iff_exists.mp hw
    exact hbound i w (h.word_of_id hi)
  have hshare : ∀ x y len, x.take len = y.take len → len ≤ x.length → len ≤ y.length →
      ∀ k p id, p + bound ≤ len → (TokenAt cs t x k p id ↔ TokenAt cs t y k p id) :=
    fun x y len hxy hx hy k p id hp =>
      ⟨fun hat => hat.congr hrep hbounded hxy hy hp,
        fun hat => hat.congr hrep hbounded hxy.symm hx hp⟩
  refine ⟨fun s options ts hts => ⟨fun k id => tokenAt_iff hts, fun p id => TokenAt.zero,
    fun k k' p p' id id' => TokenAt.lt, fun k p id => encodeImpl_resume hts⟩,
    fun s u k p id hat hp j hj q i => ?_, hshare⟩
  have hcommon : s.take s.length = (s ++ u).take s.length := by
    rw [List.take_length, List.take_left]
  have hle : s.length ≤ (s ++ u).length := by
    rw [List.length_append]
    omega
  have hiff := hshare s (s ++ u) s.length hcommon (le_refl _) hle
  -- the token at `j` starts no later than the one at `k`
  have hoffset : ∀ {str}, TokenAt cs t str k p id → TokenAt cs t str j q i → q ≤ p := by
    intro str hk hjq
    rcases Nat.lt_or_eq_of_le hj with hlt | rfl
    · exact (hjq.lt hk hlt).le
    · exact (hjq.unique hk).le
  constructor
  · intro hjq
    have hq := hoffset ((hiff k p id hp).mpr hat) hjq
    exact (hiff j q i (by omega)).mp hjq
  · intro hjq
    have hq := hoffset hat hjq
    exact (hiff j q i (by omega)).mpr hjq

/-- In the vocabulary `{0: "a", 1: "b"}` the rest of `"ab"` from its second token on
is encoded by that token. -/
theorem encode_local_ab : ∃ p, TokenAt .signed abTokenizer [0x61, 0x62] 1 p 1 ∧
    abTokenizer.encodeImpl .signed ([0x61, 0x62].drop p) {} = .ok [1] := by
  have hok : abTokenizer.encodeImpl .signed [0x61, 0x62] {} = .ok [0, 1] := by decide +kernel
  have hbound : ∀ id w, abIdx2Word.toFinmap.lookup id = some w → w.length ≤ 1 := by
    intro id w hw
    have hmem : ⟨id, w⟩ ∈ abIdx2Word.entries := AList.mem_lookup_iff.mp hw
    have hall : ∀ pair ∈ abIdx2Word.entries, pair.2.length ≤ 1 := by decide
    exact hall _ hmem
  obtain ⟨htokens, -, -, hresume⟩ :=
    (encode_local abTokenizer_loaded hbound).1 [0x61, 0x62] {} [0, 1] hok
  obtain ⟨p, hp⟩ := (htokens 1 1).mpr rfl
  exact ⟨p, hp, hresume 1 p 1 hp⟩

end RWKVWorldTokenizer

end TokenizersCpp
