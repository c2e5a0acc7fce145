import TokenizersCpp.RwkvLoadOrder
import TokenizersCpp.RwkvRoundTrip

/-!
# RWKV token lookup and the interface

The header promises an empty string for an unknown id and `-1` for an unknown
token.  `IdToToken` answers `<unk>` instead, a word may carry the sentinel id,
and of two ids with one word only one is found again.  `obeysInterface_iff` says
for which map, id and string none of this happens.
-/

namespace TokenizersCpp

namespace RWKVWorldTokenizer

variable {cs : CharSign} {m : Finmap fun _ : Int32 => Bytes} {t : RWKVWorldTokenizer}

/-! ## What the lookups return -/

/-- An unknown id of a map with entries. -/
theorem LoadedFrom.idToToken_unknown (h : LoadedFrom cs m t) {id id' : Int32} {w : Bytes}
    (hid : m.lookup id = none) (hid' : m.lookup id' = some w) :
    t.idToToken id = .ok [0x3c, 0x75, 0x6e, 0x6b, 0x3e] := by
  have hpos := length_pos_of_lookup ((h.idx2word_lookup id').trans hid')
  have hlook : t.idx2word.lookup id = none := (h.idx2word_lookup id).trans hid
  simp [idToToken, hpos, hlook, bind, Except.bind, pure, Except.pure]

/-- An unknown token of a map with entries. -/
theorem LoadedFrom.tokenToId_unknown (h : LoadedFrom cs m t) {s w : Bytes} {id : Int32}
    (hs : ∀ i, m.lookup i ≠ some s) (hid : m.lookup id = some w) : t.tokenToId s = .ok (-1) := by
  obtain ⟨j, hj⟩ := Option.isSome_iff_exists.mp (h.isSome_of_mem hid)
  have hpos := length_pos_of_lookup hj
  have hlook : t.word2idx.lookup s = none := by
    cases hi : t.word2idx.lookup s with
    | none => rfl
    | some i => exact absurd (h.word_of_id hi) (hs i)
  simp [tokenToId, hpos, hlook, bind, Except.bind, pure, Except.pure]

/-- The id that `TokenToId` returns for a word carries the word. -/
theorem LoadedFrom.tokenToId_word (h : LoadedFrom cs m t) {s : Bytes} {i : Int32}
    (hi : m.lookup i = some s) : ∃ j, t.tokenToId s = .ok j ∧ m.lookup j = some s := by
  obtain ⟨j, hj⟩ := Option.isSome_iff_exists.mp (h.isSome_of_mem hi)
  exact ⟨j, tokenToId_of_known hj, h.word_of_id hj⟩

/-- Every map has a load. -/
theorem exists_load (cs : CharSign) (m : Finmap fun _ : Int32 => Bytes) :
    ∃ t, LoadedFrom cs m t := by
  induction m using Finmap.induction_on with
  | H a => exact ⟨_, a, rfl, invertIdx2Word a, rfl, rfl⟩

/-! ## The interface -/

/-- What the header says of `IdToToken` and `TokenToId`, for one id and one
string: the word of the id, or the empty string; `-1` exactly for what is no
word; and the two lookups are inverse to each other. -/
structure ObeysInterface (m : Finmap fun _ : Int32 => Bytes) (t : RWKVWorldTokenizer)
    (id : Int32) (s : Bytes) : Prop where
  idToToken : t.idToToken id = .ok ((m.lookup id).getD [])
  notFound : t.tokenToId s = .ok (-1) ↔ ∀ i, m.lookup i ≠ some s
  wordOfId : ∀ i, t.tokenToId s = .ok i → i ≠ -1 → t.idToToken i = .ok s
  idOfWord : id ∈ m → (t.idToToken id >>= t.tokenToId) = .ok id

/-- **When the lookups obey the interface**, whatever the iteration order of the
load: the id is known, it shares its word with no other id, and the string is not
the word of the id `-1`. -/
theorem obeysInterface_iff (cs : CharSign) (m : Finmap fun _ : Int32 => Bytes) (id : Int32)
    (s : Bytes) : (∀ t, LoadedFrom cs m t → ObeysInterface m t id s) ↔
      id ∈ m ∧ (∀ j, m.lookup j = m.lookup id → j = id) ∧ m.lookup (-1) ≠ some s := by
  constructor
  · intro hobeys
    obtain ⟨t₀, h₀⟩ := exists_load cs m
    have hmem : id ∈ m := by
      by_contra hnone
      rw [← Finmap.lookup_eq_none] at hnone
      have hempty := (hobeys t₀ h₀).idToToken
      rw [hnone] at hempty
      by_cases hm : ∃ id' w, m.lookup id' = some w
      · obtain ⟨id', w, hid'⟩ := hm
        rw [h₀.idToToken_unknown hnone hid'] at hempty
        cases hempty
      · -- the check on the size fails for the empty map
        have hzero : ¬ 0 < t₀.idx2word.entries.length := by
          intro hpos
          obtain ⟨⟨k, v⟩, hkv⟩ := List.exists_mem_of_length_pos hpos
          exact hm ⟨k, v, (h₀.idx2word_lookup k).symm.trans (AList.mem_lookup_iff.mpr hkv)⟩
        simp only [RWKVWorldTokenizer.idToToken, hzero, decide_false] at hempty
        cases hempty
    obtain ⟨w, hw⟩ := Option.isSome_iff_exists.mp (Finmap.lookup_isSome.mpr hmem)
    refine ⟨hmem, fun j hj => ?_, fun hbad => ?_⟩
    · -- a load that visits `j` last finds `j` for the word of `id`
      obtain ⟨t, h, hlast⟩ := exists_load_last cs (hj.trans hw)
      have hback := (hobeys t h).idOfWord hmem
      rw [h.idToToken_of_lookup hw] at hback
      exact Except.ok.inj (hlast.symm.trans hback)
    · obtain ⟨t, h, hlast⟩ := exists_load_last cs hbad
      exact (hobeys t h).notFound.mp hlast (-1) hbad
  · rintro ⟨hmem, hone, hsentinel⟩ t h
    obtain ⟨w, hw⟩ := Option.isSome_iff_exists.mp (Finmap.lookup_isSome.mpr hmem)
    refine ⟨by rw [h.idToToken_of_lookup hw, hw]; rfl, ⟨fun hnot i hi => ?_, fun hnone => ?_⟩,
      fun i hi hok => ?_, fun _ => ?_⟩
    · obtain ⟨j, hj, hword⟩ := h.tokenToId_word hi
      obtain rfl := Except.ok.inj (hnot.symm.trans hj)
      exact hsentinel hword
    · exact h.tokenToId_unknown hnone hw
    · by_cases hs : ∃ j, m.lookup j = some s
      · obtain ⟨j, hj⟩ := hs
        obtain ⟨k, hk, hword⟩ := h.tokenToId_word hj
        obtain rfl := Except.ok.inj (hi.symm.trans hk)
        exact h.idToToken_of_lookup hword
      · have hnot := h.tokenToId_unknown (fun j hj => hs ⟨j, hj⟩) hw
        exact absurd (Except.ok.inj (hi.symm.trans hnot)) hok
    · obtain ⟨j, hj, hword⟩ := h.tokenToId_word hw
      rw [h.idToToken_of_lookup hw]
      exact hj.trans (congrArg _ (hone j (hword.trans hw.symm)))

/-- The id 7 is unknown to the vocabulary `{0: "a", 1: "b"}`, and its token is not
the empty string. -/
theorem interface_unknownId : LoadedFrom .signed abIdx2Word.toFinmap abTokenizer ∧
    ¬ ObeysInterface abIdx2Word.toFinmap abTokenizer 7 [0x61] := by
  refine ⟨abTokenizer_loaded, fun h => ?_⟩
  have hempty := h.idToToken
  revert hempty
  decide +kernel

end RWKVWorldTokenizer

end TokenizersCpp
