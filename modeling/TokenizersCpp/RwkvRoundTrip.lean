import TokenizersCpp.RwkvGreedy

/-!
# The RWKV round trip

Encoding strips words found through the inverted map and the trie; decoding
looks the ids up in the loaded map.  A run strips exactly the bytes of the text
(`Run.text_eq`), and the id of each stripped word carries that word
(`LoadedFrom.word_of_id`), so decoding restores the text.
-/

namespace TokenizersCpp

open LongestMatch

namespace RWKVWorldTokenizer

variable {cs : CharSign} {m : Finmap fun _ : Int32 => Bytes} {t : RWKVWorldTokenizer}

/-- A known id decodes to its word. -/
theorem LoadedFrom.idToToken_of_lookup (h : LoadedFrom cs m t) {id : Int32} {w : Bytes}
    (hid : m.lookup id = some w) : t.idToToken id = .ok w :=
  idToToken_of_known ((h.idx2word_lookup id).trans hid)

/-- Decoding the ids of a list of words appends the words. -/
theorem LoadedFrom.decodeLoop_words (h : LoadedFrom cs m t) {ws : List Bytes} {ts : List Int32}
    (hids : ws.map t.word2idx.lookup = ts.map some) (str : Bytes) :
    t.decodeLoop str ts = .ok (str ++ ws.flatten) := by
  induction ws generalizing ts str with
  | nil =>
    cases ts with
    | nil => simp [decodeLoop]
    | cons i ts => simp at hids
  | cons w ws ih =>
    cases ts with
    | nil => simp at hids
    | cons i ts =>
      simp only [List.map_cons, List.cons.injEq] at hids
      have htok := h.idToToken_of_lookup (h.word_of_id hids.1)
      simp only [decodeLoop, htok, bind, Except.bind]
      rw [ih hids.2, List.flatten_cons, List.append_assoc]

/-- **The round trip.**  For every loaded map, every iteration order and every
text: when encoding returns, the returned ids are ids of the map and decoding
them gives the text back, byte for byte. -/
theorem decode_encode (h : LoadedFrom cs m t) {s : Bytes} {options : EncodeOptions}
    {ids : List Int32} (henc : t.encodeImpl cs s options = .ok ids) :
    (∀ id ∈ ids, id ∈ m ∧ id ∈ t.idx2word) ∧ t.decode ids = .ok s := by
  obtain ⟨ws, hrun⟩ := (encodeImpl_ok_iff h.represents).mp henc
  obtain ⟨hs, -, hids, -⟩ := run_complete_iff.mp hrun
  refine ⟨fun id hid => ?_, ?_⟩
  · have hmem : some id ∈ ws.map t.word2idx.lookup := hids ▸ List.mem_map_of_mem hid
    obtain ⟨w, -, hw⟩ := List.mem_map.mp hmem
    have hword := h.word_of_id hw
    refine ⟨Finmap.mem_of_lookup_eq_some hword, ?_⟩
    rw [← AList.lookup_isSome, h.idx2word_lookup, hword]
    rfl
  · rw [decode, h.decodeLoop_words hids, List.nil_append, hs]

/-- The round trip of `"ab"` in the vocabulary `{0: "a", 1: "b"}`. -/
theorem decode_encode_ab : abTokenizer.decode [0, 1] = .ok [0x61, 0x62] :=
  (decode_encode abTokenizer_loaded
    (by decide +kernel : abTokenizer.encodeImpl .signed [0x61, 0x62] {} = .ok [0, 1])).2

end RWKVWorldTokenizer

end TokenizersCpp
