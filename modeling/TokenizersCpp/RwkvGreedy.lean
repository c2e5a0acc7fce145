import TokenizersCpp.RwkvWorld

/-!
# RWKV encoding is greedy longest match

What a load leaves behind (`LoadedFrom.represents`, `LoadedFrom.word_of_id`,
`LoadedFrom.isSome_of_mem`), and the encoding loop over it: the loop follows the
greedy run of the dictionary `_word2idx` on the text, returns the ids of a
complete run and throws on a stuck one.
-/

namespace TokenizersCpp

open InsertionLoop LongestMatch

namespace RWKVWorldTokenizer

variable {cs : CharSign} {m : Finmap fun _ : Int32 => Bytes} {t : RWKVWorldTokenizer}

/-! ## What a load leaves behind -/

theorem LoadedFrom.idx2word_lookup (h : LoadedFrom cs m t) (id : Int32) :
    t.idx2word.lookup id = m.lookup id := by
  obtain ⟨idx2word, rfl, order, -, rfl⟩ := h
  exact (Finmap.lookup_toFinmap id idx2word).symm

/-- The trie stores `_word2idx`. -/
theorem LoadedFrom.represents (h : LoadedFrom cs m t) :
    t.tree.Represents cs fun p => t.word2idx.lookup p := by
  obtain ⟨idx2word, rfl, order, horder, rfl⟩ := h
  have hlookup : ∀ p, (invertIdx2Word idx2word).lookup p = order.lookup p := fun p =>
    (AList.perm_lookup (AList.toFinmap_eq.mp horder)).symm
  simpa only [construct, hlookup] using TrieTree.represents_entries cs order

/-- The id of a word carries that word. -/
theorem LoadedFrom.word_of_id (h : LoadedFrom cs m t) {w : Bytes} {id : Int32}
    (hw : t.word2idx.lookup w = some id) : m.lookup id = some w := by
  obtain ⟨idx2word, rfl, order, -, rfl⟩ := h
  rcases mem_of_lookup_insertAll (hw : (invertIdx2Word idx2word).lookup w = some id) with
    hmem | hnil
  · obtain ⟨pair, hpair, he⟩ := List.mem_map.mp hmem
    obtain ⟨rfl, hid⟩ := Sigma.mk.inj he
    obtain rfl := eq_of_heq hid
    rw [Finmap.lookup_toFinmap]
    exact AList.mem_lookup_iff.mpr hpair
  · rw [AList.lookup_empty] at hnil
    cases hnil

/-- Every word of the loaded map has an id. -/
theorem LoadedFrom.isSome_of_mem (h : LoadedFrom cs m t) {w : Bytes} {id : Int32}
    (hid : m.lookup id = some w) : (t.word2idx.lookup w).isSome := by
  obtain ⟨idx2word, rfl, order, -, rfl⟩ := h
  rw [Finmap.lookup_toFinmap] at hid
  exact lookup_insertAll_isSome.mpr
    (Or.inl ⟨id, List.mem_map.mpr ⟨⟨id, w⟩, AList.mem_lookup_iff.mp hid, rfl⟩⟩)

/-! ## The encoding loop -/

theorem encodeLoop_done {str : Bytes} {strIdx : Nat} {ids : List Int32}
    (hdrop : str.drop strIdx = []) : t.encodeLoop cs str strIdx ids = .ok ids := by
  have hle := List.drop_eq_nil_iff.mp hdrop
  rw [encodeLoop, dif_neg (by omega)]

section Loop
variable {d : Bytes → Option Int32} (h : t.tree.Represents cs d)
include h

theorem encodeLoop_word {str w rest : Bytes} {strIdx : Nat} {i : Int32} {ids : List Int32}
    (hdrop : str.drop strIdx = w ++ rest) (hw : IsLongest d (w ++ rest) w) (hd : d w = some i)
    (hi : i ≠ -1) :
    t.encodeLoop cs str strIdx ids = t.encodeLoop cs str (strIdx + w.length) (ids ++ [i]) := by
  have hfound : t.tree.findLongestPrefix cs (str.drop strIdx) = .ok (w, i) := by
    rw [hdrop]
    exact h.findLongestPrefix_ok.mpr ⟨hw, hd, hi⟩
  have hlt : strIdx < str.length := by
    have hpos := List.length_pos_of_ne_nil hw.ne_nil
    have hlen := congrArg List.length hdrop
    rw [List.length_drop, List.length_append] at hlen
    omega
  rw [encodeLoop, dif_pos hlt]
  split
  · rename_i e he
    rw [hfound] at he
    cases he
  · rename_i pfx tokenId hok
    rw [hfound] at hok
    obtain ⟨rfl, rfl⟩ := Prod.mk.inj (Except.ok.inj hok)
    rfl

/-- **The loop follows the greedy run** from its position in the text. -/
theorem encodeLoop_run {s r : Bytes} {ws : List Bytes} {ts : List Int32}
    (hrun : Run d (· ≠ -1) s ws ts r) {str : Bytes} {strIdx : Nat} (ids : List Int32)
    (hdrop : str.drop strIdx = s) :
    ∃ strIdx', str.drop strIdx' = r ∧
      t.encodeLoop cs str strIdx ids = t.encodeLoop cs str strIdx' (ids ++ ts) := by
  induction hrun generalizing strIdx ids with
  | stop s => exact ⟨strIdx, hdrop, by rw [List.append_nil]⟩
  | @word s w r i ws ts hw hd hi _ ih =>
    have hnext : str.drop (strIdx + w.length) = s := by
      rw [← List.drop_drop, hdrop, List.drop_left]
    obtain ⟨strIdx', hr, heq⟩ := ih (ids ++ [i]) hnext
    refine ⟨strIdx', hr, ?_⟩
    rw [encodeLoop_word h hdrop hw hd hi, heq, List.append_assoc, List.singleton_append]

/-- On a stuck remainder a check of `find_longest_prefix` fails. -/
theorem encodeLoop_stuck {str r : Bytes} {strIdx : Nat} (ids : List Int32)
    (hdrop : str.drop strIdx = r) (hr : Stuck d (· ≠ -1) r) :
    ∃ msg, t.encodeLoop cs str strIdx ids = .error (.frException msg) := by
  have hlt : strIdx < str.length := by
    by_contra hge
    exact hr.1 (hdrop ▸ List.drop_eq_nil_iff.mpr (by omega))
  rw [encodeLoop, dif_pos hlt]
  split
  · rename_i e he
    obtain ⟨msg, rfl⟩ := h.findLongestPrefix_error he
    exact ⟨msg, rfl⟩
  · rename_i pfx i hok
    obtain ⟨hw, hd, hi⟩ := h.findLongestPrefix_ok.mp hok
    exact absurd hi (hr.2 pfx i (hdrop ▸ hw) hd)

/-- `EncodeImpl` returns the ids of the complete greedy run, if there is one. -/
theorem encodeImpl_ok_iff {s : Bytes} {options : EncodeOptions} {ts : List Int32} :
    t.encodeImpl cs s options = .ok ts ↔ ∃ ws, Run d (· ≠ -1) s ws ts [] := by
  constructor
  · intro hok
    -- the loop follows a run that is complete or stuck, and a stuck one would throw
    rcases Run.complete_or_stuck d (· ≠ -1) s with ⟨ws, us, hrun⟩ | ⟨ws, us, r, hrun, hr⟩
    · obtain ⟨strIdx, hdrop, heq⟩ := encodeLoop_run h hrun [] (rfl : s.drop 0 = s)
      rw [encodeImpl, heq, encodeLoop_done hdrop, List.nil_append] at hok
      exact ⟨ws, Except.ok.inj hok ▸ hrun⟩
    · obtain ⟨strIdx, hdrop, heq⟩ := encodeLoop_run h hrun [] (rfl : s.drop 0 = s)
      obtain ⟨msg, herr⟩ := encodeLoop_stuck h ([] ++ us) hdrop hr
      rw [encodeImpl, heq, herr] at hok
      cases hok
  · rintro ⟨ws, hrun⟩
    obtain ⟨strIdx, hdrop, heq⟩ := encodeLoop_run h hrun [] (rfl : s.drop 0 = s)
    rw [encodeImpl, heq, encodeLoop_done hdrop, List.nil_append]

/-- `EncodeImpl` throws when the greedy run is stuck, and then an `FRException`. -/
theorem encodeImpl_error_iff {s : Bytes} {options : EncodeOptions} :
    (∃ msg, t.encodeImpl cs s options = .error (.frException msg)) ↔
      ∃ ws ts r, Run d (· ≠ -1) s ws ts r ∧ Stuck d (· ≠ -1) r := by
  constructor
  · rintro ⟨msg, herr⟩
    rcases Run.complete_or_stuck d (· ≠ -1) s with ⟨ws, us, hrun⟩ | hstuck
    · rw [(encodeImpl_ok_iff h).mpr ⟨ws, hrun⟩] at herr
      cases herr
    · exact hstuck
  · rintro ⟨ws, ts, r, hrun, hr⟩
    obtain ⟨strIdx, hdrop, heq⟩ := encodeLoop_run h hrun [] (rfl : s.drop 0 = s)
    obtain ⟨msg, herr⟩ := encodeLoop_stuck h ([] ++ ts) hdrop hr
    exact ⟨msg, by rw [encodeImpl, heq, herr]⟩

/-- Encoding returns ids or throws an `FRException`. -/
theorem encodeImpl_cases (s : Bytes) (options : EncodeOptions) :
    (∃ ts, t.encodeImpl cs s options = .ok ts) ∨
      ∃ msg, t.encodeImpl cs s options = .error (.frException msg) := by
  rcases Run.complete_or_stuck d (· ≠ -1) s with ⟨ws, ts, hrun⟩ | hstuck
  · exact Or.inl ⟨ts, (encodeImpl_ok_iff h).mpr ⟨ws, hrun⟩⟩
  · exact Or.inr ((encodeImpl_error_iff h).mpr hstuck)

/-- `EncodeImpl` throws exactly when the greedy run is stuck. -/
theorem encodeImpl_throws_iff {s : Bytes} {options : EncodeOptions} :
    (∃ e, t.encodeImpl cs s options = .error e) ↔
      ∃ ws ts r, Run d (· ≠ -1) s ws ts r ∧ Stuck d (· ≠ -1) r := by
  constructor
  · rintro ⟨e, he⟩
    rcases encodeImpl_cases h s options with ⟨ts, hok⟩ | herr
    · rw [hok] at he
      cases he
    · exact (encodeImpl_error_iff h).mp herr
  · intro hrun
    have herr : ∃ msg, t.encodeImpl cs s options = .error (.frException msg) :=
      (encodeImpl_error_iff h).mpr hrun
    obtain ⟨msg, herr⟩ := herr
    exact ⟨_, herr⟩

end Loop

/-! ## Greedy longest match -/

/-- One iteration of the loop of `EncodeImpl` moves the position from `i` to `j`. -/
def LoopIteration (cs : CharSign) (t : RWKVWorldTokenizer) (str : Bytes) (j i : Nat) : Prop :=
  i < str.length ∧ ∃ pfx tokenId,
    t.tree.findLongestPrefix cs (str.drop i) = .ok (pfx, tokenId) ∧ j = i + pfx.length

/-- The remaining text gets shorter with every iteration. -/
theorem loopIteration_wellFounded (cs : CharSign) (t : RWKVWorldTokenizer) (str : Bytes) :
    WellFounded (LoopIteration cs t str) := by
  refine Subrelation.wf ?_ (measure (str.length - ·)).wf
  rintro j i ⟨hlt, pfx, tokenId, hfound, rfl⟩
  have hpos := findLongestPrefix_pos hfound
  show str.length - (i + pfx.length) < str.length - i
  omega

/-- **RWKV encoding is greedy longest match**, for every loaded vocabulary and
every text.  The loop terminates; it returns `ts` exactly when `ts` are the ids,
none of them the sentinel `-1`, of the greedy decomposition of the text, which is
unique; it throws exactly when the greedy process reaches a non-empty rest that
begins with no word or whose longest word has id `-1`.  A vocabulary with every
one-byte word and without the id `-1` encodes every text. -/
theorem encode_greedy_longest_match (h : LoadedFrom cs m t) (s : Bytes)
    (options : EncodeOptions) :
    WellFounded (LoopIteration cs t s) ∧
    (∀ ts, t.encodeImpl cs s options = .ok ts ↔
      ∃ ws, s = ws.flatten ∧ Greedy t.word2idx.lookup ws ∧
        ws.map t.word2idx.lookup = ts.map some ∧ ∀ i ∈ ts, i ≠ -1) ∧
    (∀ ws ws', s = ws.flatten → Greedy t.word2idx.lookup ws →
      s = ws'.flatten → Greedy t.word2idx.lookup ws' → ws = ws') ∧
    ((∃ e, t.encodeImpl cs s options = .error e) ↔
      ∃ ws ts r, Run t.word2idx.lookup (· ≠ -1) s ws ts r ∧ r ≠ [] ∧
        ((∀ w, w ≠ [] → (t.word2idx.lookup w).isSome → ¬ w <+: r) ∨
          ∃ w, IsLongest t.word2idx.lookup r w ∧ t.word2idx.lookup w = some (-1))) ∧
    ((∀ c : UInt8, (t.word2idx.lookup [c]).isSome) →
      (∀ w, t.word2idx.lookup w ≠ some (-1)) →
        ∃ ts, t.encodeImpl cs s options = .ok ts) := by
  have hrep := h.represents
  have hstuck : ∀ r : Bytes, Stuck t.word2idx.lookup (· ≠ -1) r ↔ r ≠ [] ∧
      ((∀ w, w ≠ [] → (t.word2idx.lookup w).isSome → ¬ w <+: r) ∨
        ∃ w, IsLongest t.word2idx.lookup r w ∧ t.word2idx.lookup w = some (-1)) := by
    intro r
    rw [stuck_iff]
    refine and_congr_right fun _ => or_congr_right ⟨?_, ?_⟩
    · rintro ⟨w, i, hw, hi, hbad⟩
      rw [not_not] at hbad
      exact ⟨w, hw, hbad ▸ hi⟩
    · rintro ⟨w, hw, hi⟩
      exact ⟨w, -1, hw, hi, not_not.mpr rfl⟩
  refine ⟨loopIteration_wellFounded cs t s, fun ts => ?_, ?_, ?_, ?_⟩
  · rw [encodeImpl_ok_iff hrep]
    exact exists_congr fun ws => run_complete_iff
  · intro ws ws' hs hg hs' hg'
    exact hg.unique hg' (hs.symm.trans hs')
  · simp only [← hstuck]
    exact encodeImpl_throws_iff hrep
  · intro hbytes hids
    rcases Run.complete_or_stuck t.word2idx.lookup (· ≠ -1) s with ⟨ws, ts, hrun⟩ | hrun
    · exact ⟨ts, (encodeImpl_ok_iff hrep).mpr ⟨ws, hrun⟩⟩
    · -- the first byte of a stuck rest would be a word, and no word has the sentinel id
      obtain ⟨ws, ts, r, -, hr⟩ := hrun
      obtain ⟨hne, hnone | ⟨w, -, hw⟩⟩ := (hstuck r).mp hr
      · cases r with
        | nil => exact absurd rfl hne
        | cons c r => exact absurd ⟨r, rfl⟩ (hnone [c] (List.cons_ne_nil c []) (hbytes c))
      · exact absurd hw (hids w)

/-- `"ab"` is encoded by its two one-byte words. -/
theorem encode_greedy_ab :
    ∃ ws : List Bytes, [0x61, 0x62] = ws.flatten ∧ Greedy abTokenizer.word2idx.lookup ws ∧
      ws.map abTokenizer.word2idx.lookup = [some 0, some 1] := by
  have hok : abTokenizer.encodeImpl .signed [0x61, 0x62] {} = .ok [0, 1] := by decide +kernel
  obtain ⟨ws, hs, hg, hids, -⟩ :=
    ((encode_greedy_longest_match abTokenizer_loaded [0x61, 0x62] {}).2.1 [0, 1]).mp hok
  exact ⟨ws, hs, hg, hids⟩

end RWKVWorldTokenizer

end TokenizersCpp
