import TokenizersCpp.RwkvGreedy

/-!
# RWKV loading and hash iteration order

Two loads of one map differ in the iteration order of `_idx2word`, in that of
`_word2idx` and in the platform's `char`.  The trie depends on neither
(`TrieTree.Represents.findLongestPrefix_eq`).  The inverting loop keeps the last
id it meets for a word, so it depends on the order exactly when a word has more
than one id.
-/

namespace TokenizersCpp

open InsertionLoop LongestMatch

namespace RWKVWorldTokenizer

variable {cs cs' : CharSign} {m : Finmap fun _ : Int32 => Bytes} {t t' : RWKVWorldTokenizer}

/-- The two tokenizers cannot be told apart by `Encode`, `Decode`, `TokenToId`
or `IdToToken`. -/
structure Agree (cs : CharSign) (t : RWKVWorldTokenizer) (cs' : CharSign)
    (t' : RWKVWorldTokenizer) : Prop where
  encode : ∀ s options, t.encodeImpl cs s options = t'.encodeImpl cs' s options
  decode : ∀ ids, t.decode ids = t'.decode ids
  tokenToId : ∀ token, t.tokenToId token = t'.tokenToId token
  idToToken : ∀ id, t.idToToken id = t'.idToToken id

/-- **Loading does not depend on iteration order** for the map `m`: any two
loads of it, on any platforms, agree. -/
def OrderIndependent (m : Finmap fun _ : Int32 => Bytes) : Prop :=
  ∀ cs cs' t t', LoadedFrom cs m t → LoadedFrom cs' m t' → Agree cs t cs' t'

/-- No two ids of the map carry the same word. -/
def DistinctWords (m : Finmap fun _ : Int32 => Bytes) : Prop :=
  ∀ i j w, m.lookup i = some w → m.lookup j = some w → i = j

/-! ## Distinct words: the order does not matter -/

/-- With distinct words the inverted map is the inverse relation. -/
theorem LoadedFrom.word2idx_iff (h : LoadedFrom cs m t) (hm : DistinctWords m) {w : Bytes}
    {i : Int32} : t.word2idx.lookup w = some i ↔ m.lookup i = some w := by
  constructor
  · exact h.word_of_id
  · intro hi
    obtain ⟨j, hj⟩ := Option.isSome_iff_exists.mp (h.isSome_of_mem hi)
    rw [hj, hm i j w hi (h.word_of_id hj)]

theorem LoadedFrom.word2idx_eq (h : LoadedFrom cs m t) (h' : LoadedFrom cs' m t')
    (hm : DistinctWords m) (w : Bytes) : t.word2idx.lookup w = t'.word2idx.lookup w := by
  apply Option.ext
  intro i
  exact (h.word2idx_iff hm).trans (h'.word2idx_iff hm).symm

theorem encodeLoop_eq {d : Bytes → Option Int32} (h : t.tree.Represents cs d)
    (h' : t'.tree.Represents cs' d) (str : Bytes) (strIdx : Nat) (ids : List Int32) :
    t.encodeLoop cs str strIdx ids = t'.encodeLoop cs' str strIdx ids := by
  induction hn : str.length - strIdx using Nat.strongRecOn generalizing strIdx ids with
  | ind n ih =>
    rw [encodeLoop, encodeLoop]
    by_cases hlt : strIdx < str.length
    · rw [dif_pos hlt, dif_pos hlt]
      have heq := h.findLongestPrefix_eq h' (str.drop strIdx)
      split <;> split
      · rename_i e he e' he'
        rw [heq, he'] at he
        exact congrArg _ (Except.error.inj he).symm
      · rename_i e he pfx' i' hok'
        rw [heq, hok'] at he
        cases he
      · rename_i pfx i hok e' he'
        rw [heq, he'] at hok
        cases hok
      · rename_i pfx i hok pfx' i' hok'
        have hpos := findLongestPrefix_pos hok
        rw [heq, hok'] at hok
        obtain ⟨rfl, rfl⟩ := Prod.mk.inj (Except.ok.inj hok)
        exact ih _ (by omega) _ _ rfl
    · rw [dif_neg hlt, dif_neg hlt]

/-- A map and a map with the same lookups are empty together. -/
theorem length_pos_congr {κ ν : Type*} [DecidableEq κ] {a b : AList fun _ : κ => ν}
    (h : ∀ k, a.lookup k = b.lookup k) : 0 < a.entries.length ↔ 0 < b.entries.length := by
  have hsub : ∀ {a b : AList fun _ : κ => ν}, (∀ k, a.lookup k = b.lookup k) →
      0 < a.entries.length → 0 < b.entries.length := by
    intro a b h hpos
    obtain ⟨⟨k, v⟩, hmem⟩ := List.exists_mem_of_length_pos hpos
    exact length_pos_of_lookup ((h k).symm.trans (AList.mem_lookup_iff.mpr hmem))
  exact ⟨hsub h, hsub fun k => (h k).symm⟩

theorem idToToken_congr (h : ∀ id, t.idx2word.lookup id = t'.idx2word.lookup id) (id : Int32) :
    t.idToToken id = t'.idToToken id := by
  simp only [idToToken, h id, decide_eq_decide.mpr (length_pos_congr h)]

theorem tokenToId_congr (h : ∀ w, t.word2idx.lookup w = t'.word2idx.lookup w) (w : Bytes) :
    t.tokenToId w = t'.tokenToId w := by
  simp only [tokenToId, h w, decide_eq_decide.mpr (length_pos_congr h)]

theorem decodeLoop_congr (h : ∀ id, t.idToToken id = t'.idToToken id) (ids : List Int32)
    (str : Bytes) : t.decodeLoop str ids = t'.decodeLoop str ids := by
  induction ids generalizing str with
  | nil => rfl
  | cons id ids ih => simp only [decodeLoop, h id, ih]

theorem agree_of_distinctWords (hm : DistinctWords m) : OrderIndependent m := by
  intro cs cs' t t' h h'
  have hword := h.word2idx_eq h' hm
  have hid : ∀ id, t.idToToken id = t'.idToToken id := idToToken_congr fun id =>
    (h.idx2word_lookup id).trans (h'.idx2word_lookup id).symm
  have hrep' : t'.tree.Represents cs' fun p => t.word2idx.lookup p := by
    simpa only [hword] using h'.represents
  exact ⟨fun s _ => encodeLoop_eq h.represents hrep' s 0 [],
    fun ids => decodeLoop_congr hid ids [], tokenToId_congr hword, hid⟩

/-! ## A repeated word: the last id wins -/

/-- Some load visits the id `i` last, so its word gets the id `i`. -/
theorem exists_load_last (cs : CharSign) {i : Int32} {w : Bytes} (hi : m.lookup i = some w) :
    ∃ t, LoadedFrom cs m t ∧ t.tokenToId w = .ok i := by
  obtain ⟨a, rfl⟩ : ∃ a : Idx2Word, a.toFinmap = m := by
    induction m using Finmap.induction_on with
    | H a => exact ⟨a, rfl⟩
  rw [Finmap.lookup_toFinmap] at hi
  -- the entries of `a` with the entry of `i` moved to the end
  let pair : Sigma fun _ : Int32 => Bytes := ⟨i, w⟩
  have hperm : ((a.erase i).entries ++ [pair]).Perm (AList.insert i w a).entries := by
    rw [AList.entries_insert]
    exact List.perm_append_singleton _ _
  let b : Idx2Word :=
    ⟨(a.erase i).entries ++ [pair],
      (List.perm_nodupKeys hperm).mpr (AList.insert i w a).nodupKeys⟩
  have hb : b.toFinmap = a.toFinmap := by
    refine (AList.toFinmap_eq.mpr hperm : b.toFinmap = (AList.insert i w a).toFinmap).trans ?_
    refine Finmap.ext_lookup fun k => ?_
    rw [Finmap.lookup_toFinmap, Finmap.lookup_toFinmap]
    by_cases hk : k = i
    · subst hk; rw [AList.lookup_insert, hi]
    · rw [AList.lookup_insert_ne hk]
  have hlast : (invertIdx2Word b).lookup w = some i := by
    simp only [invertIdx2Word, b, pair, List.map_append, List.map_cons, List.map_nil]
    exact lookup_insertAll_concat _ (⟨w, i⟩ : Sigma fun _ : Bytes => Int32) ∅
  exact ⟨construct cs b (invertIdx2Word b).entries, ⟨b, hb, invertIdx2Word b, rfl, rfl⟩,
    tokenToId_of_known hlast⟩

/-- **Exactly the maps with distinct words load independently of the order.** -/
theorem orderIndependent_iff (m : Finmap fun _ : Int32 => Bytes) :
    OrderIndependent m ↔ DistinctWords m := by
  constructor
  · intro h i j w hi hj
    obtain ⟨t, ht, hti⟩ := exists_load_last .signed hi
    obtain ⟨t', ht', htj⟩ := exists_load_last .signed hj
    have hagree := (h .signed .signed t t' ht ht').tokenToId w
    rw [hti, htj] at hagree
    exact Except.ok.inj hagree
  · exact agree_of_distinctWords

/-- Two ids carry the word `"a"`: the id that `TokenToId("a")` and `Encode("a")`
return depends on the iteration order. -/
theorem loading_depends_on_order :
    ¬ OrderIndependent (insertAll [⟨0, [0x61]⟩, ⟨1, [0x61]⟩] ∅ : Idx2Word).toFinmap := by
  intro h
  let a : Idx2Word := insertAll [⟨0, [0x61]⟩, ⟨1, [0x61]⟩] ∅
  let b : Idx2Word := insertAll [⟨1, [0x61]⟩, ⟨0, [0x61]⟩] ∅
  have hperm : b.toFinmap = a.toFinmap := by decide
  have ha : LoadedFrom .signed a.toFinmap (construct .signed a (invertIdx2Word a).entries) :=
    ⟨a, rfl, invertIdx2Word a, rfl, rfl⟩
  have hb : LoadedFrom .signed a.toFinmap (construct .signed b (invertIdx2Word b).entries) :=
    ⟨b, hperm, invertIdx2Word b, rfl, rfl⟩
  have hagree := (h .signed .signed _ _ ha hb).encode [0x61] {}
  revert hagree
  decide +kernel

end RWKVWorldTokenizer

end TokenizersCpp
