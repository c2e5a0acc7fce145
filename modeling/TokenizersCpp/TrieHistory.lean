import TokenizersCpp.Dispatch

/-!
# The trie after any sequence of insertions

`RwkvTrie` shows that one insertion keeps the representation invariant.  This
module reads the trie off the sequence of `add_word` calls that built it: which
paths exist, which of them are words, and with which id (`trie_of_history`).  A
word that is inserted under an id other than the sentinel is then encoded by
that id alone.
-/

namespace TokenizersCpp

open InsertionLoop LongestMatch

namespace TrieTree

variable (cs : CharSign)

/-- An insertion leaves the word and the id of every other path alone; the nodes
that it creates on its way are blank. -/
theorem follow_addWord_of_ne {w p : Bytes} (hne : p ≠ w) (id : Int32) (t : TrieTree) :
    (∀ n, t.follow cs p = some n →
      ∃ n', (t.addWord cs w id).follow cs p = some n' ∧ n'.word = n.word ∧
        n'.tokenId = n.tokenId) ∧
    (t.follow cs p = none → ∀ n', (t.addWord cs w id).follow cs p = some n' →
      n'.word = [] ∧ n'.tokenId = none) := by
  have hfollow : (t.addWord cs w id).follow cs p = _ := follow_addWordFrom cs w id w p t
  by_cases hp : p <+: w
  · rw [if_pos hp] at hfollow
    obtain ⟨rest, rfl⟩ := hp
    rw [List.drop_left] at hfollow
    cases rest with
    | nil => exact absurd (List.append_nil p).symm hne
    | cons c rest =>
      -- the insertion goes on below the node of `p`
      constructor
      · intro n hn
        rw [hn] at hfollow
        exact ⟨_, hfollow, rfl, rfl⟩
      · intro hnone n' hn'
        rw [hnone, hn'] at hfollow
        obtain rfl := Option.some.inj hfollow
        exact ⟨rfl, rfl⟩
  · rw [if_neg hp] at hfollow
    constructor
    · intro n hn
      exact ⟨n, hfollow.trans hn, rfl, rfl⟩
    · intro hnone n' hn'
      rw [hfollow, hnone] at hn'
      cases hn'

variable {cs}

/-- The words of the dictionary that a sequence of insertions leaves. -/
theorem isSome_lookup_history {words : List (Sigma fun _ : Bytes => Int32)} {p : Bytes} :
    ((insertAll words ∅).lookup p).isSome ↔ ∃ pair ∈ words, pair.1 = p := by
  rw [lookup_insertAll_isSome, AList.lookup_empty]
  constructor
  · rintro (⟨id, hmem⟩ | hnone)
    · exact ⟨_, hmem, rfl⟩
    · cases hnone
  · rintro ⟨⟨w, id⟩, hmem, rfl⟩
    exact Or.inl ⟨id, hmem⟩

end TrieTree

namespace RWKVWorldTokenizer

variable {cs : CharSign} {m : Finmap fun _ : Int32 => Bytes} {t : RWKVWorldTokenizer}

/-- A word with an id other than the sentinel is encoded by that id alone. -/
theorem LoadedFrom.encodeImpl_word (h : LoadedFrom cs m t) {w : Bytes} (hne : w ≠ [])
    {id : Int32} (hid : t.tokenToId w = .ok id) (hok : id ≠ -1) (options : EncodeOptions) :
    t.encodeImpl cs w options = .ok [id] := by
  rcases lookup_of_tokenToId hid with hlook | ⟨-, hbad⟩
  · exact (encodeImpl_ok_iff h.represents).mpr ⟨[w], .single hne hlook hok⟩
  · exact absurd hbad hok

end RWKVWorldTokenizer

section History
variable (cs : CharSign) (crates : Crates) (lib : SentencePieceLibrary)

/-- **The trie of a sequence of `add_word` calls**, in any order and with any
repetition.  A path exists exactly when it begins an added word; its node has an
id exactly when it is an added word, and then it stores that word and the id of
its last insertion; and an insertion changes no other path.  So the trie of
`_word2idx` stores `_word2idx`, and a word is encoded by its own id. -/
theorem trie_of_history :
    (∀ words p, ((TrieTree.ofWord2id cs words).follow cs p).isSome ↔
      p = [] ∨ ∃ pair ∈ words, p <+: pair.1) ∧
    (∀ words p n, (TrieTree.ofWord2id cs words).follow cs p = some n →
      (n.tokenId.isSome ↔ ∃ pair ∈ words, pair.1 = p) ∧
      ∀ before id after, words = before ++ ⟨p, id⟩ :: after → (∀ pair ∈ after, pair.1 ≠ p) →
        n.word = p ∧ n.tokenId = some id) ∧
    (∀ words w id p, p ≠ w →
      (∀ n, (TrieTree.ofWord2id cs words).follow cs p = some n →
        ∃ n', (TrieTree.ofWord2id cs (words ++ [⟨w, id⟩])).follow cs p = some n' ∧
          n'.word = n.word ∧ n'.tokenId = n.tokenId) ∧
      ((TrieTree.ofWord2id cs words).follow cs p = none →
        ∀ n', (TrieTree.ofWord2id cs (words ++ [⟨w, id⟩])).follow cs p = some n' →
          n'.word = [] ∧ n'.tokenId = none)) ∧
    (∀ word2idx order : Word2Idx, order.toFinmap = word2idx.toFinmap →
      (TrieTree.ofWord2id cs order.entries).Represents cs fun p => word2idx.lookup p) ∧
    ∀ m t, RWKVWorldTokenizer.LoadedFrom cs m t → ∀ w id, w ≠ [] → t.tokenToId w = .ok id →
      id ≠ -1 → ∀ options : EncodeOptions, options.Accepted false → ∀ σ,
        ((.rwkvWorld t : Tokenizer crates lib).encode cs w options σ).1 = .ok [id] := by
  refine ⟨fun words p => ?_, fun words p n hn => ?_, fun words w id p hne => ?_,
    fun word2idx order horder => ?_, fun m t h w id hne hid hok options haccepted σ => ?_⟩
  · have hrep := TrieTree.represents_ofWord2id cs words
    rw [hrep.path]
    simp only [TrieTree.isSome_lookup_history]
    refine or_congr_right ⟨?_, ?_⟩
    · rintro ⟨w, ⟨pair, hmem, rfl⟩, hp⟩
      exact ⟨pair, hmem, hp⟩
    · rintro ⟨pair, hmem, hp⟩
      exact ⟨pair.1, ⟨pair, hmem, rfl⟩, hp⟩
  · have hrep := TrieTree.represents_ofWord2id cs words
    have htoken := hrep.tokenId p n hn
    refine ⟨by rw [htoken, TrieTree.isSome_lookup_history], ?_⟩
    rintro before id after rfl hafter
    have hlast := lookup_insertAll_of_last before id hafter ∅
    exact ⟨hrep.word p n hn (by rw [hlast]; rfl), htoken.trans hlast⟩
  · have hconcat : TrieTree.ofWord2id cs (words ++ [⟨w, id⟩]) =
        (TrieTree.ofWord2id cs words).addWord cs w id := by
      rw [TrieTree.ofWord2id, List.foldl_append]
      rfl
    rw [hconcat]
    exact TrieTree.follow_addWord_of_ne cs hne id _
  · have hlookup : ∀ p, word2idx.lookup p = order.lookup p := fun p =>
      (AList.perm_lookup (AList.toFinmap_eq.mp horder)).symm
    simpa only [hlookup] using TrieTree.represents_entries cs order
  · have hvalid : validateEncodeOptions options
        (Tokenizer.rwkvWorld t : Tokenizer crates lib).supportsEncodeFlags = .ok () :=
      validateEncodeOptions_eq_ok.mpr haccepted
    rw [Tokenizer.encode_fst, hvalid]
    exact h.encodeImpl_word hne hid hok options

/-- The word `"a"` of the vocabulary `{0: "a", 1: "b"}`. -/
theorem trie_of_history_ab :
    ((.rwkvWorld RWKVWorldTokenizer.abTokenizer : Tokenizer crates lib).encode .signed [0x61] {}
      Ledger.initial).1 = .ok [0] :=
  (trie_of_history .signed crates lib).2.2.2.2 _ _ RWKVWorldTokenizer.abTokenizer_loaded _ _
    (List.cons_ne_nil _ _) (by decide +kernel) (by decide) {} (by decide) _

end History

end TokenizersCpp
