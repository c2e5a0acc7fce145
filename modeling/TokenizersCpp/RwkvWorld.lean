import TokenizersCpp.InsertionLoop
import TokenizersCpp.RwkvTrie

/-!
# The RWKV world tokenizer

`RWKVWorldTokenizer` of `rwkv_world_tokenizer.cc`.  An `unordered_map` is an
association list without repeated keys; the order of the list is the order in
which a loop over the map visits it, and the contents are the list up to
permutation (`Finmap`).  The constructor visits two maps: the loaded `_idx2word`
and the inverted `_word2idx`, so a load is described by the two lists
(`LoadedFrom`), with nothing said about how the lists are ordered.
-/

namespace TokenizersCpp

open InsertionLoop LongestMatch

/-- `std::unordered_map<int, std::string>`, in iteration order. -/
abbrev Idx2Word := AList fun _ : Int32 => Bytes

/-- `std::unordered_map<std::string, int>`, in iteration order. -/
abbrev Word2Idx := AList fun _ : Bytes => Int32

/-- The tokenizer's members. -/
structure RWKVWorldTokenizer where
  word2idx : Word2Idx
  idx2word : Idx2Word
  tree : TrieTree

/-- The inverting loop of the constructor,
`for (auto& pair : _idx2word) _word2idx[pair.second] = pair.first`. -/
def invertIdx2Word (idx2word : Idx2Word) : Word2Idx :=
  insertAll (idx2word.entries.map fun pair => ⟨pair.2, pair.1⟩) ∅

namespace RWKVWorldTokenizer

variable (cs : CharSign)

/-- The constructor after the msgpack map is read: `idx2word` in its iteration
order, and `order`, the entries of the inverted map in theirs. -/
def construct (idx2word : Idx2Word) (order : List (Sigma fun _ : Bytes => Int32)) :
    RWKVWorldTokenizer where
  word2idx := invertIdx2Word idx2word
  idx2word := idx2word
  tree := TrieTree.ofWord2id cs order

/-- **Loading**: `t` is a tokenizer that the constructor can build from the map
`m`, for some iteration order of `_idx2word` and some of `_word2idx`. -/
def LoadedFrom (m : Finmap fun _ : Int32 => Bytes) (t : RWKVWorldTokenizer) : Prop :=
  ∃ idx2word : Idx2Word, idx2word.toFinmap = m ∧
    ∃ order : Word2Idx, order.toFinmap = (invertIdx2Word idx2word).toFinmap ∧
      t = construct cs idx2word order.entries

/-- The vocabulary `{0: "a", 1: "b"}`, which the repository's tests load. -/
def abIdx2Word : Idx2Word := insertAll [⟨0, [0x61]⟩, ⟨1, [0x62]⟩] ∅

/-- The tokenizer of `{0: "a", 1: "b"}`. -/
def abTokenizer : RWKVWorldTokenizer :=
  construct .signed abIdx2Word (invertIdx2Word abIdx2Word).entries

theorem abTokenizer_loaded : LoadedFrom .signed abIdx2Word.toFinmap abTokenizer :=
  ⟨abIdx2Word, rfl, invertIdx2Word abIdx2Word, rfl, rfl⟩

/-! ## Members -/

/-- `find_longest_prefix` checks that it does not return an empty word. -/
theorem findLongestPrefix_pos {cs : CharSign} {node : TrieTree} {str pfx : Bytes} {id : Int32}
    (h : node.findLongestPrefix cs str = .ok (pfx, id)) : 0 < pfx.length := by
  unfold TrieTree.findLongestPrefix at h
  cases hf : TrieTree.findLongestPrefixFrom cs node [] (-1) str with
  | error e => rw [hf] at h; cases h
  | ok r =>
    rw [hf] at h
    obtain ⟨p, i⟩ := r
    cases p with
    | nil => cases h
    | cons c p =>
      by_cases hi : i = -1
      · subst hi; cases h
      · have hi' : (i != -1) = true := by simpa using hi
        simp [bind, Except.bind, rvCheck, hi', pure, Except.pure] at h
        obtain ⟨rfl, -⟩ := h
        exact Nat.succ_pos _

/-- The loop of `EncodeImpl`.  It makes progress because `find_longest_prefix`
checks that the word it returns is not empty. -/
def encodeLoop (t : RWKVWorldTokenizer) (str : Bytes) (strIdx : Nat) (ids : List Int32) :
    Except CppException (List Int32) :=
  if _h : strIdx < str.length then
    match _hfound : t.tree.findLongestPrefix cs (str.drop strIdx) with
    | .error e => .error e
    | .ok (pfx, tokenId) => t.encodeLoop str (strIdx + pfx.length) (ids ++ [tokenId])
  else
    .ok ids
termination_by str.length - strIdx
decreasing_by
  have := findLongestPrefix_pos _hfound
  omega

/-- `EncodeImpl(str, options)`; the options are not used. -/
def encodeImpl (t : RWKVWorldTokenizer) (str : Bytes) (_options : EncodeOptions) :
    Except CppException (List Int32) :=
  t.encodeLoop cs str 0 []

/-- `IdToToken(token_id)`. -/
def idToToken (t : RWKVWorldTokenizer) (tokenId : Int32) : Except CppException Bytes := do
  rvCheck (0 < t.idx2word.entries.length) "_idx2word.size() > 0" 116
  match t.idx2word.lookup tokenId with
  | none => return [0x3c, 0x75, 0x6e, 0x6b, 0x3e]  -- "<unk>"
  | some word => return word

/-- `TokenToId(token)`. -/
def tokenToId (t : RWKVWorldTokenizer) (token : Bytes) : Except CppException Int32 := do
  rvCheck (0 < t.word2idx.entries.length) "_word2idx.size() > 0" 126
  match t.word2idx.lookup token with
  | none => return -1
  | some id => return id

/-- The loop of `Decode`, with the text built so far. -/
def decodeLoop (t : RWKVWorldTokenizer) (str : Bytes) : List Int32 → Except CppException Bytes
  | [] => .ok str
  | id :: ids => do
      let token ← t.idToToken id
      t.decodeLoop (str ++ token) ids

/-- `Decode(ids)`. -/
def decode (t : RWKVWorldTokenizer) (ids : List Int32) : Except CppException Bytes :=
  t.decodeLoop [] ids

/-- `GetVocabSize()`. -/
def getVocabSize (t : RWKVWorldTokenizer) : Except CppException Nat := do
  let size := t.idx2word.entries.length
  rvCheck (0 < size) "size > 0" 111
  return size

/-! ## Lookups -/

/-- A map that has an entry has a positive size. -/
theorem length_pos_of_lookup {κ ν : Type*} [DecidableEq κ] {a : AList fun _ : κ => ν} {k : κ}
    {v : ν} (h : a.lookup k = some v) : 0 < a.entries.length :=
  List.length_pos_of_mem (AList.mem_lookup_iff.mp h)

section Lookups
variable {t : RWKVWorldTokenizer}

/-- A known id; the check on the size cannot fail. -/
theorem idToToken_of_known {id : Int32} {w : Bytes} (h : t.idx2word.lookup id = some w) :
    t.idToToken id = .ok w := by
  simp [idToToken, length_pos_of_lookup h, h, bind, Except.bind, pure, Except.pure]

/-- A known token. -/
theorem tokenToId_of_known {w : Bytes} {i : Int32} (h : t.word2idx.lookup w = some i) :
    t.tokenToId w = .ok i := by
  simp [tokenToId, length_pos_of_lookup h, h, bind, Except.bind, pure, Except.pure]

/-- `TokenToId` returns the id of a known token, or the sentinel. -/
theorem lookup_of_tokenToId {w : Bytes} {i : Int32} (h : t.tokenToId w = .ok i) :
    t.word2idx.lookup w = some i ∨ t.word2idx.lookup w = none ∧ i = -1 := by
  cases hlook : t.word2idx.lookup w with
  | some j =>
    rw [tokenToId_of_known hlook] at h
    exact Or.inl (congrArg some (Except.ok.inj h))
  | none =>
    rw [tokenToId, hlook] at h
    by_cases hpos : 0 < t.word2idx.entries.length
    · simp only [hpos, decide_true, rvCheck_true] at h
      exact Or.inr ⟨rfl, (Except.ok.inj h).symm⟩
    · simp only [hpos, decide_false] at h
      cases h

end Lookups

end RWKVWorldTokenizer

end TokenizersCpp
