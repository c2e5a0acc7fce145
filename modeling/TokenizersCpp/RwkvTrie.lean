import Mathlib.Logic.Function.Basic
import TokenizersCpp.InsertionLoop
import TokenizersCpp.Interface
import TokenizersCpp.LongestMatch

/-!
# The trie of the RWKV tokenizer

`TrieTree` of `rwkv_world_tokenizer.cc`: a node keeps its children in an
`unordered_map<int, unique_ptr<TrieTree>>`, and an accepting node keeps the
whole word and its id.  The representation invariant `Represents` relates a
trie to the dictionary it stores; inserting a word updates the dictionary at
that word alone (`Represents.addWord`), and `findLongestPrefix` is the longest
match of the dictionary, with the two run-time checks that follow the walk
(`findLongestPrefix_ok`, `findLongestPrefix_error`).
-/

namespace TokenizersCpp

open InsertionLoop

/-- `RV_CHECK(cond)`: throws an `FRException` that quotes the condition and its
place in the file. -/
def rvCheck (cond : Bool) (text : String) (line : Nat) : Except CppException Unit :=
  if cond then
    .ok ()
  else
    .error (.frException (s!"Check \"{text}\" failed at {line}" ++
      " in rwkv_world_tokenizer.cc\n  > Error msg: "))

@[simp] theorem rvCheck_true (text : String) (line : Nat) : rvCheck true text line = .ok () := rfl

/-- Whether the platform's plain `char` is a signed type. -/
inductive CharSign
  | signed
  | unsigned
deriving DecidableEq, Repr

/-- The implicit conversion `char → int` that turns a byte into a child key. -/
def CharSign.charToInt : CharSign → UInt8 → Int
  | .signed, c => if c.toNat < 128 then (c.toNat : Int) else (c.toNat : Int) - 256
  | .unsigned, c => c.toNat

theorem CharSign.charToInt_injective (cs : CharSign) : Function.Injective cs.charToInt := by
  intro a b h
  have ha := a.toNat_lt
  have hb := b.toNat_lt
  apply UInt8.toNat_inj.mp
  cases cs with
  | unsigned => exact Int.ofNat.inj h
  | signed =>
    unfold charToInt at h
    dsimp only at h
    split at h <;> split at h <;> omega

/-- One node of the trie.  A child entry created by `operator[]` holds a null
pointer until it is assigned, hence the `Option`. -/
structure TrieTree where
  children : List (Sigma fun _ : Int => Option TrieTree)
  word : Bytes
  tokenId : Option Int32

namespace TrieTree

/-- The node of the defaulted private constructor. -/
def empty : TrieTree := ⟨[], [], none⟩

variable (cs : CharSign)

/-- The child that a byte leads to, if the entry exists and is not null. -/
def child (node : TrieTree) (c : UInt8) : Option TrieTree :=
  (node.children.dlookup (cs.charToInt c)).join

/-- `_add_word(word, token_id, idx)`, with the suffix `word[idx..]` for `idx`. -/
def addWordFrom (word : Bytes) (tokenId : Int32) : Bytes → TrieTree → TrieTree
  | [], node => { node with word := word, tokenId := some tokenId }
  | c :: rest, node =>
      let child := (node.child cs c).getD empty
      { node with
        children := node.children.kinsert (cs.charToInt c)
          (some (addWordFrom word tokenId rest child)) }

/-- `add_word(word, token_id)`. -/
def addWord (node : TrieTree) (word : Bytes) (tokenId : Int32) : TrieTree :=
  addWordFrom cs word tokenId word node

/-- `TrieTree(word2id)`: adds the words in the map's iteration order. -/
def ofWord2id (word2id : List (Sigma fun _ : Bytes => Int32)) : TrieTree :=
  word2id.foldl (fun node pair => node.addWord cs pair.1 pair.2) empty

/-- The loop of `find_longest_prefix` from the node reached so far, with the
bytes `str[i..]` that are still to be read. -/
def findLongestPrefixFrom :
    TrieTree → Bytes → Int32 → Bytes → Except CppException (Bytes × Int32)
  | _, pfx, tokenId, [] => .ok (pfx, tokenId)
  | node, pfx, tokenId, c :: rest =>
      match node.children.dlookup (cs.charToInt c) with
      | none => .ok (pfx, tokenId)
      | some none => do
          rvCheck false "node != nullptr" 36
          .ok (pfx, tokenId)
      | some (some node) =>
          match node.tokenId with
          | some id => findLongestPrefixFrom node node.word id rest
          | none => findLongestPrefixFrom node pfx tokenId rest

/-- `find_longest_prefix(str)`. -/
def findLongestPrefix (node : TrieTree) (str : Bytes) : Except CppException (Bytes × Int32) := do
  let (pfx, tokenId) ← findLongestPrefixFrom cs node [] (-1) str
  rvCheck (!pfx.isEmpty) "!prefix.empty()" 42
  rvCheck (tokenId != -1) "token_id != -1" 43
  return (pfx, tokenId)

/-! ## Paths -/

/-- The node that the path `p` leads to. -/
def follow : TrieTree → Bytes → Option TrieTree
  | node, [] => some node
  | node, c :: p => (node.child cs c).bind (follow · p)

@[simp] theorem follow_nil (node : TrieTree) : node.follow cs [] = some node := rfl

theorem follow_append (node : TrieTree) (p q : Bytes) :
    node.follow cs (p ++ q) = (node.follow cs p).bind (·.follow cs q) := by
  induction p generalizing node with
  | nil => rfl
  | cons c p ih =>
    simp only [List.cons_append, follow]
    cases node.child cs c with
    | none => rfl
    | some n => exact ih n

@[simp] theorem child_empty (c : UInt8) : empty.child cs c = none := rfl

/-- Looking below a child that may be missing: a missing child behaves as the
empty node, except that the empty path does not lead to it. -/
theorem getD_follow_getD (o : Option TrieTree) (p : Bytes) :
    ((o.getD empty).follow cs p).getD empty = (o.bind (·.follow cs p)).getD empty := by
  cases o with
  | some n => rfl
  | none => cases p <;> rfl

theorem child_addWordFrom_self (word rest : Bytes) (id : Int32) (c : UInt8) (node : TrieTree) :
    (addWordFrom cs word id (c :: rest) node).child cs c =
      some (addWordFrom cs word id rest ((node.child cs c).getD empty)) := by
  simp only [addWordFrom, child, List.dlookup_kinsert, Option.join_some]

theorem child_addWordFrom_ne {word rest : Bytes} {id : Int32} {b c : UInt8} (h : c ≠ b)
    (node : TrieTree) :
    (addWordFrom cs word id (b :: rest) node).child cs c = node.child cs c := by
  have hkey : cs.charToInt c ≠ cs.charToInt b := fun he => h (cs.charToInt_injective he)
  simp only [addWordFrom, child, List.dlookup_kinsert_ne hkey]

/-- **What `_add_word` does to every path**: a prefix of the inserted suffix
leads to the node it led to before (or to a new one), with the rest of the
suffix inserted there; every other path is left alone. -/
theorem follow_addWordFrom (word : Bytes) (id : Int32) (rest p : Bytes) (node : TrieTree) :
    (addWordFrom cs word id rest node).follow cs p =
      if p <+: rest then
        some (addWordFrom cs word id (rest.drop p.length) ((node.follow cs p).getD empty))
      else node.follow cs p := by
  induction p generalizing rest node with
  | nil => simp
  | cons c p ih =>
    cases rest with
    | nil => simp [addWordFrom, follow, child]
    | cons b rest =>
      by_cases hcb : c = b
      · subst hcb
        simp only [follow, child_addWordFrom_self, Option.bind_some, ih,
          List.cons_prefix_cons, true_and, List.length_cons, List.drop_succ_cons]
        by_cases hp : p <+: rest
        · simp only [hp, if_true, getD_follow_getD]
        · simp only [hp, if_false]
          -- a path that is no prefix is not empty, so a missing child does not matter
          cases hchild : node.child cs c with
          | some n => rfl
          | none =>
            cases p with
            | nil => exact absurd List.nil_prefix hp
            | cons a p => rfl
      · simp [follow, child_addWordFrom_ne cs hcb, hcb]

/-! ## The dictionary a trie stores -/

/-- The trie `t` stores the dictionary `d`: exactly the prefixes of words are
paths, the node of a word keeps its id and the word itself, no other node has an
id, and no child pointer is null. -/
structure Represents (t : TrieTree) (d : Bytes → Option Int32) : Prop where
  path : ∀ p, (t.follow cs p).isSome ↔ p = [] ∨ ∃ w, (d w).isSome ∧ p <+: w
  tokenId : ∀ p n, t.follow cs p = some n → n.tokenId = d p
  word : ∀ p n, t.follow cs p = some n → (d p).isSome → n.word = p
  noNull : ∀ p n k, t.follow cs p = some n → n.children.dlookup k ≠ some none

theorem represents_empty : empty.Represents cs fun _ => none where
  path p := by cases p <;> simp [follow, child, empty]
  tokenId p n h := by
    cases p with
    | nil =>
      obtain rfl := Option.some.inj h
      rfl
    | cons c p => cases h
  word p n _ hd := by cases hd
  noNull p n k h := by
    cases p with
    | nil =>
      obtain rfl := Option.some.inj h
      simp [empty]
    | cons c p => cases h

variable {cs}

theorem Represents.follow_of_word {t : TrieTree} {d : Bytes → Option Int32}
    (h : t.Represents cs d) {p w : Bytes} (hw : (d w).isSome) (hp : p <+: w) :
    ∃ n, t.follow cs p = some n :=
  Option.isSome_iff_exists.mp ((h.path p).mpr (Or.inr ⟨w, hw, hp⟩))

theorem Represents.no_word {t : TrieTree} {d : Bytes → Option Int32} (h : t.Represents cs d)
    {p : Bytes} (hp : t.follow cs p = none) (q : Bytes) : d (p ++ q) = none := by
  by_contra hne
  obtain ⟨n, hn⟩ := h.follow_of_word (Option.isSome_iff_ne_none.mpr hne) (List.prefix_append p q)
  rw [hp] at hn
  cases hn

/-- The node of a path, or the node that insertion would create for it. -/
theorem Represents.getD_node {t : TrieTree} {d : Bytes → Option Int32} (h : t.Represents cs d)
    (p : Bytes) :
    ((t.follow cs p).getD empty).tokenId = d p ∧
      ((d p).isSome → ((t.follow cs p).getD empty).word = p) ∧
      ∀ k, ((t.follow cs p).getD empty).children.dlookup k ≠ some none := by
  cases hf : t.follow cs p with
  | some n => exact ⟨h.tokenId p n hf, h.word p n hf, fun k => h.noNull p n k hf⟩
  | none =>
    have hd : d p = none := by simpa using h.no_word hf []
    exact ⟨hd.symm, fun hs => (by rw [hd] at hs; cases hs), fun k => by simp [empty]⟩

/-- **Insertion updates one word**: after `add_word(w, id)` the trie stores the
dictionary with `w ↦ id`, whether or not `w` was a word before. -/
theorem Represents.addWord {t : TrieTree} {d : Bytes → Option Int32} (h : t.Represents cs d)
    (w : Bytes) (id : Int32) :
    (t.addWord cs w id).Represents cs (Function.update d w (some id)) := by
  have hfollow : ∀ p, (t.addWord cs w id).follow cs p = _ := fun p =>
    follow_addWordFrom cs w id w p t
  have hself : ∀ v, ((Function.update d w (some id)) v).isSome ↔ v = w ∨ (d v).isSome := by
    intro v
    by_cases hv : v = w
    · subst hv; simp
    · simp [hv]
  -- what the node of a path holds: on the inserted path its rest decides, elsewhere nothing changed
  have hnode : ∀ p n, (t.addWord cs w id).follow cs p = some n →
      n.tokenId = Function.update d w (some id) p ∧
        (((Function.update d w (some id)) p).isSome → n.word = p) ∧
        ∀ k, n.children.dlookup k ≠ some none := by
    intro p n hn
    rw [hfollow p] at hn
    obtain ⟨htok, hword, hnull⟩ := h.getD_node p
    by_cases hp : p <+: w
    · rw [if_pos hp] at hn
      obtain rfl := Option.some.inj hn
      obtain ⟨rest, rfl⟩ := hp
      rw [List.drop_left]
      cases rest with
      | nil => simp [addWordFrom, hnull]
      | cons c rest =>
        have hne : p ≠ p ++ c :: rest := by simp
        rw [Function.update_of_ne hne]
        refine ⟨htok, hword, fun k => ?_⟩
        simp only [addWordFrom]
        by_cases hk : k = cs.charToInt c
        · subst hk; simp only [List.dlookup_kinsert]; simp
        · rw [List.dlookup_kinsert_ne hk]; exact hnull k
    · rw [if_neg hp] at hn
      have hne : p ≠ w := fun he => hp (he ▸ List.prefix_rfl)
      rw [Function.update_of_ne hne]
      rw [hn] at htok hword hnull
      exact ⟨htok, hword, hnull⟩
  refine ⟨fun p => ?_, fun p n hn => (hnode p n hn).1, fun p n hn => (hnode p n hn).2.1,
    fun p n k hn => (hnode p n hn).2.2 k⟩
  rw [hfollow p]
  simp only [hself]
  by_cases hp : p <+: w
  · rw [if_pos hp]
    exact ⟨fun _ => Or.inr ⟨w, Or.inl rfl, hp⟩, fun _ => rfl⟩
  · rw [if_neg hp, h.path p]
    constructor
    · rintro (hnil | ⟨v, hv, hpv⟩)
      · exact Or.inl hnil
      · exact Or.inr ⟨v, Or.inr hv, hpv⟩
    · rintro (hnil | ⟨v, rfl | hv, hpv⟩)
      · exact Or.inl hnil
      · exact absurd hpv hp
      · exact Or.inr ⟨v, hv, hpv⟩

/-- Adding words one after the other stores the map that the same sequence of
assignments leaves: the last id of a repeated word wins. -/
theorem represents_foldl (words : List (Sigma fun _ : Bytes => Int32)) {t : TrieTree}
    {map : AList fun _ : Bytes => Int32} (h : t.Represents cs fun p => map.lookup p) :
    (words.foldl (fun node pair => node.addWord cs pair.1 pair.2) t).Represents cs
      fun p => (insertAll words map).lookup p := by
  induction words generalizing t map with
  | nil => exact h
  | cons pair words ih =>
    have hupdate : Function.update (fun p => map.lookup p) pair.1 (some pair.2) =
        fun p => (map.insert pair.1 pair.2).lookup p := by
      funext p
      by_cases hp : p = pair.1
      · subst hp; rw [Function.update_self, AList.lookup_insert]
      · rw [Function.update_of_ne hp, AList.lookup_insert_ne hp]
    exact ih (hupdate ▸ h.addWord pair.1 pair.2)

theorem represents_ofWord2id (cs : CharSign) (words : List (Sigma fun _ : Bytes => Int32)) :
    (ofWord2id cs words).Represents cs fun p => (insertAll words ∅).lookup p := by
  refine represents_foldl words ?_
  simpa only [AList.lookup_empty] using represents_empty cs

/-- **The trie built from a map stores the map**, in whichever order the words
are added. -/
theorem represents_entries (cs : CharSign) (map : AList fun _ : Bytes => Int32) :
    (ofWord2id cs map.entries).Represents cs fun p => map.lookup p := by
  simpa only [lookup_insertAll_entries] using represents_ofWord2id cs map.entries

/-! ## The longest match -/

theorem follow_snoc {t node : TrieTree} {p : Bytes} (hp : t.follow cs p = some node)
    (c : UInt8) : t.follow cs (p ++ [c]) = node.child cs c := by
  rw [follow_append, hp, Option.bind_some, follow]
  simp

section Walk
variable {node n : TrieTree} {c : UInt8} (pfx : Bytes) (id : Int32) (rest : Bytes)

/-- The walk ends where no edge carries the next character. -/
theorem findLongestPrefixFrom_end (h : node.children.dlookup (cs.charToInt c) = none) :
    findLongestPrefixFrom cs node pfx id (c :: rest) = .ok (pfx, id) := by
  rw [findLongestPrefixFrom, h]

/-- It passes a node without an id. -/
theorem findLongestPrefixFrom_blank (h : node.children.dlookup (cs.charToInt c) = some (some n))
    (hid : n.tokenId = none) :
    findLongestPrefixFrom cs node pfx id (c :: rest) = findLongestPrefixFrom cs n pfx id rest := by
  rw [findLongestPrefixFrom, h]
  simp only [hid]

/-- At a node with an id it notes the word and the id. -/
theorem findLongestPrefixFrom_word (h : node.children.dlookup (cs.charToInt c) = some (some n))
    {i : Int32} (hid : n.tokenId = some i) :
    findLongestPrefixFrom cs node pfx id (c :: rest) =
      findLongestPrefixFrom cs n n.word i rest := by
  rw [findLongestPrefixFrom, h]
  simp only [hid]

end Walk

/-- A word that continues `p` inside a text continues it with the next character. -/
theorem cons_of_prefix {q rest : Bytes} {c : UInt8} (hq : q ≠ []) (hqr : q <+: c :: rest)
    (p : Bytes) : ∃ q', q = c :: q' ∧ q' <+: rest ∧ p ++ q = p ++ [c] ++ q' := by
  obtain ⟨q', rfl, hq'⟩ := (List.prefix_cons_iff.mp hqr).resolve_left hq
  exact ⟨q', rfl, hq', List.append_cons p c q'⟩

/-- So the longest word that continues `p ++ [c]` is the longest one that continues `p`. -/
theorem longest_of_snoc {d : Bytes → Option Int32} {p q rest : Bytes} {c : UInt8} {i : Int32}
    {result : Except CppException (Bytes × Int32)} (hok : result = .ok (p ++ [c] ++ q, i))
    (hqr : q <+: rest) (hd : d (p ++ [c] ++ q) = some i)
    (hmax : ∀ q', q' <+: rest → (d (p ++ [c] ++ q')).isSome → q'.length ≤ q.length) :
    ∃ q i, result = .ok (p ++ q, i) ∧ q ≠ [] ∧ q <+: c :: rest ∧ d (p ++ q) = some i ∧
      ∀ q', q' <+: c :: rest → (d (p ++ q')).isSome → q'.length ≤ q.length := by
  rw [← List.append_cons] at hok hd
  refine ⟨c :: q, i, hok, List.cons_ne_nil c q, List.cons_prefix_cons.mpr ⟨rfl, hqr⟩, hd, ?_⟩
  intro q' hq' hs
  by_cases hnil : q' = []
  · rw [hnil]
    exact Nat.zero_le _
  · obtain ⟨q'', rfl, hq'', heq⟩ := cons_of_prefix hnil hq' p
    rw [heq] at hs
    exact Nat.succ_le_succ (hmax q'' hq'' hs)

/-- **The loop of `find_longest_prefix`.**  From the node of the path `p` the
walk returns the pair it started with unless some word continues `p` inside the
text, and then the longest such word with its id. -/
theorem Represents.findLongestPrefixFrom {t : TrieTree} {d : Bytes → Option Int32}
    (h : t.Represents cs d) (rest : Bytes) {p : Bytes} {node : TrieTree}
    (hp : t.follow cs p = some node) (pfx : Bytes) (id : Int32) :
    (findLongestPrefixFrom cs node pfx id rest = .ok (pfx, id) ∧
        ∀ q, q ≠ [] → q <+: rest → d (p ++ q) = none) ∨
      ∃ q i, findLongestPrefixFrom cs node pfx id rest = .ok (p ++ q, i) ∧
        q ≠ [] ∧ q <+: rest ∧ d (p ++ q) = some i ∧
        ∀ q', q' <+: rest → (d (p ++ q')).isSome → q'.length ≤ q.length := by
  induction rest generalizing p node pfx id with
  | nil => exact Or.inl ⟨rfl, fun q hq hqr => absurd (List.prefix_nil.mp hqr) hq⟩
  | cons c rest ih =>
    have hsnoc := follow_snoc hp c
    cases hl : node.children.dlookup (cs.charToInt c) with
    | none =>
      have hnone : t.follow cs (p ++ [c]) = none := by rw [hsnoc, child, hl]; rfl
      refine Or.inl ⟨findLongestPrefixFrom_end pfx id rest hl, fun q hq hqr => ?_⟩
      obtain ⟨q', rfl, -, heq⟩ := cons_of_prefix hq hqr p
      rw [heq]
      exact h.no_word hnone q'
    | some child' =>
      cases child' with
      | none => exact absurd hl (h.noNull p node _ hp)
      | some n =>
        have hn : t.follow cs (p ++ [c]) = some n := by rw [hsnoc, child, hl]; rfl
        have htok := h.tokenId _ _ hn
        cases hid : n.tokenId with
        | none =>
          have hd : d (p ++ [c]) = none := by rw [← htok, hid]
          rw [findLongestPrefixFrom_blank pfx id rest hl hid]
          rcases ih hn pfx id with ⟨hok, hno⟩ | ⟨q, i, hok, hq, hqr, hdq, hmax⟩
          · refine Or.inl ⟨hok, fun q hq hqr => ?_⟩
            obtain ⟨q', rfl, hq', heq⟩ := cons_of_prefix hq hqr p
            rw [heq]
            by_cases hnil : q' = []
            · rw [hnil, List.append_nil, hd]
            · exact hno q' hnil hq'
          · exact Or.inr (longest_of_snoc hok hqr hdq hmax)
        | some i₀ =>
          have hd : d (p ++ [c]) = some i₀ := by rw [← htok, hid]
          have hword : n.word = p ++ [c] := h.word _ _ hn (by rw [hd]; rfl)
          rw [findLongestPrefixFrom_word pfx id rest hl hid, hword]
          rcases ih hn (p ++ [c]) i₀ with ⟨hok, hno⟩ | ⟨q, i, hok, hq, hqr, hdq, hmax⟩
          · -- `p ++ [c]` is a word and no longer word is in the text
            have hself : p ++ [c] ++ [] = p ++ [c] := List.append_nil _
            refine Or.inr (longest_of_snoc (hok.trans (by rw [hself])) List.nil_prefix
              (by rw [hself, hd]) fun q' hq' hs => ?_)
            by_contra hlen
            have hne : q' ≠ [] := fun hnil => hlen (by rw [hnil])
            rw [hno q' hne hq'] at hs
            cases hs
          · exact Or.inr (longest_of_snoc hok hqr hdq hmax)

theorem findLongestPrefix_of_from {t : TrieTree} {s pfx : Bytes} {id : Int32}
    (h : findLongestPrefixFrom cs t [] (-1) s = .ok (pfx, id)) (hne : pfx ≠ []) (hid : id ≠ -1) :
    t.findLongestPrefix cs s = .ok (pfx, id) := by
  have h1 : (!pfx.isEmpty) = true := by simpa using hne
  have h2 : (id != -1) = true := by simpa using hid
  simp only [findLongestPrefix, h, bind, Except.bind, h1, h2, rvCheck_true, pure, Except.pure]

/-- **`find_longest_prefix` is the longest match.**  It returns a word and an id
exactly when the word is the longest match of the text and the id, its own in
the dictionary, is not the sentinel. -/
theorem Represents.findLongestPrefix_ok {t : TrieTree} {d : Bytes → Option Int32}
    (h : t.Represents cs d) {s w : Bytes} {i : Int32} :
    t.findLongestPrefix cs s = .ok (w, i) ↔
      LongestMatch.IsLongest d s w ∧ d w = some i ∧ i ≠ -1 := by
  rcases h.findLongestPrefixFrom s (follow_nil cs t) [] (-1) with
    ⟨hok, hno⟩ | ⟨q, j, hok, hq, hqs, hdq, hmax⟩
  · constructor
    · intro hf
      simp [findLongestPrefix, hok, bind, Except.bind, rvCheck] at hf
    · rintro ⟨hw, -, -⟩
      have hnone := hno w hw.ne_nil hw.begins
      have hword := hw.word
      rw [List.nil_append] at hnone
      rw [hnone] at hword
      cases hword
  · rw [List.nil_append] at hok hdq
    have hlongest : LongestMatch.IsLongest d s q :=
      ⟨hq, by rw [hdq]; rfl, hqs, fun v hv hvs => hmax v hvs (by simpa using hv)⟩
    constructor
    · intro hf
      by_cases hj : j = -1
      · have hne : (!q.isEmpty) = true := by simpa using hq
        simp [findLongestPrefix, hok, bind, Except.bind, hne, hj, rvCheck] at hf
      · rw [findLongestPrefix_of_from hok hq hj] at hf
        obtain ⟨rfl, rfl⟩ := Prod.mk.inj (Except.ok.inj hf)
        exact ⟨hlongest, hdq, hj⟩
    · rintro ⟨hw, hi, hne⟩
      obtain rfl := hw.unique hlongest
      obtain rfl := Option.some.inj (hi.symm.trans hdq)
      exact findLongestPrefix_of_from hok hq hne

/-- The result, failed checks included, depends on the dictionary alone: two
tries that store one dictionary agree, also across platforms. -/
theorem Represents.findLongestPrefix_eq {cs' : CharSign} {t t' : TrieTree}
    {d : Bytes → Option Int32} (h : t.Represents cs d) (h' : t'.Represents cs' d) (s : Bytes) :
    t.findLongestPrefix cs s = t'.findLongestPrefix cs' s := by
  have hfrom : TrieTree.findLongestPrefixFrom cs t [] (-1) s =
      TrieTree.findLongestPrefixFrom cs' t' [] (-1) s := by
    rcases h.findLongestPrefixFrom s (follow_nil cs t) [] (-1) with
        ⟨hok, hno⟩ | ⟨q, i, hok, hq, hqs, hd, hmax⟩ <;>
      rcases h'.findLongestPrefixFrom s (follow_nil cs' t') [] (-1) with
        ⟨hok', hno'⟩ | ⟨q', i', hok', hq', hqs', hd', hmax'⟩
    · rw [hok, hok']
    · rw [hno q' hq' hqs'] at hd'; cases hd'
    · rw [hno' q hq hqs] at hd; cases hd
    · have hlen : q.length = q'.length :=
        Nat.le_antisymm (hmax' q hqs (by rw [hd]; rfl)) (hmax q' hqs' (by rw [hd']; rfl))
      obtain rfl := (List.prefix_of_prefix_length_le hqs hqs' hlen.le).eq_of_length hlen
      obtain rfl := Option.some.inj (hd.symm.trans hd')
      rw [hok, hok']
  simp only [findLongestPrefix, hfrom]

/-- Every failure of `find_longest_prefix` is a failed `RV_CHECK`. -/
theorem Represents.findLongestPrefix_error {t : TrieTree} {d : Bytes → Option Int32}
    (h : t.Represents cs d) {s : Bytes} {e : CppException}
    (he : t.findLongestPrefix cs s = .error e) : ∃ msg, e = .frException msg := by
  have hfrom : ∃ r, TrieTree.findLongestPrefixFrom cs t [] (-1) s = .ok r := by
    rcases h.findLongestPrefixFrom s (follow_nil cs t) [] (-1) with ⟨hok, -⟩ | ⟨q, j, hok, -⟩
    · exact ⟨_, hok⟩
    · exact ⟨_, hok⟩
  obtain ⟨⟨pfx, id⟩, hr⟩ := hfrom
  have hcheck : ∀ {cond : Bool} {text : String} {line : Nat} {e : CppException},
      rvCheck cond text line = .error e → ∃ msg, e = .frException msg := by
    intro cond text line e hc
    cases cond with
    | true => cases hc
    | false => exact ⟨_, (Except.error.inj hc).symm⟩
  simp only [findLongestPrefix, hr, bind, Except.bind] at he
  split at he
  · rename_i e' h1
    exact hcheck (Except.error.inj he ▸ h1)
  · split at he
    · rename_i e' h2
      exact hcheck (Except.error.inj he ▸ h2)
    · cases he

end TrieTree

end TokenizersCpp
