import TokenizersCpp.Dispatch
import TokenizersCpp.RwkvLocality
import TokenizersCpp.RwkvRoundTrip
import TokenizersCpp.SampleLibrary
import TokenizersCpp.Segmentation

/-!
# RWKV encoding in pieces, and its length

A text may be cut wherever no word of the vocabulary straddles the cut: `EncodeBatch` of
the pieces finds the ids that `Encode` finds in the whole text, or throws the same
exception (`encode_pieces`).  In a vocabulary in which every end of a word is a word,
`Encode` returns a shortest list of ids for the text whenever there is one
(`encode_shortest`).
-/

namespace TokenizersCpp

open LongestMatch

/-! ## Cuts -/

/-- `find_longest_prefix` looks at the words that the text begins with, and at nothing else. -/
theorem TrieTree.Represents.findLongestPrefix_congr {cs : CharSign} {t : TrieTree}
    {d : Bytes → Option Int32} (h : t.Represents cs d) {s s' : Bytes}
    (hbegins : ∀ w, (d w).isSome → (w <+: s ↔ w <+: s')) :
    t.findLongestPrefix cs s = t.findLongestPrefix cs s' := by
  have hfrom : TrieTree.findLongestPrefixFrom cs t [] (-1) s =
      TrieTree.findLongestPrefixFrom cs t [] (-1) s' := by
    rcases h.findLongestPrefixFrom s (TrieTree.follow_nil cs t) [] (-1) with
        ⟨hok, hno⟩ | ⟨q, i, hok, hq, hqs, hd, hmax⟩ <;>
      rcases h.findLongestPrefixFrom s' (TrieTree.follow_nil cs t) [] (-1) with
        ⟨hok', hno'⟩ | ⟨q', i', hok', hq', hqs', hd', hmax'⟩
    · rw [hok, hok']
    · rw [List.nil_append] at hd'
      have hnone := hno q' hq' ((hbegins q' (by rw [hd']; rfl)).mpr hqs')
      rw [List.nil_append, hd'] at hnone
      cases hnone
    · rw [List.nil_append] at hd
      have hnone := hno' q hq ((hbegins q (by rw [hd]; rfl)).mp hqs)
      rw [List.nil_append, hd] at hnone
      cases hnone
    · rw [List.nil_append] at hd hd'
      have hqs'' := (hbegins q' (by rw [hd']; rfl)).mpr hqs'
      have hlen : q.length = q'.length :=
        Nat.le_antisymm (hmax' q ((hbegins q (by rw [hd]; rfl)).mp hqs)
          (by rw [List.nil_append, hd]; rfl)) (hmax q' hqs'' (by rw [List.nil_append, hd']; rfl))
      obtain rfl := (List.prefix_of_prefix_length_le hqs hqs'' hlen.le).eq_of_length hlen
      obtain rfl := Option.some.inj (hd.symm.trans hd')
      rw [hok, hok']
  simp only [findLongestPrefix, hfrom]

namespace RWKVWorldTokenizer

variable {cs : CharSign} {t : RWKVWorldTokenizer} {d : Bytes → Option Int32}

/-- One iteration of the loop. -/
theorem encodeLoop_of_lt {str : Bytes} {strIdx : Nat} (hlt : strIdx < str.length)
    (ids : List Int32) : t.encodeLoop cs str strIdx ids =
      (t.tree.findLongestPrefix cs (str.drop strIdx) >>= fun found =>
        t.encodeLoop cs str (strIdx + found.1.length) (ids ++ [found.2])) := by
  conv_lhs => rw [encodeLoop, dif_pos hlt]
  split
  · rename_i e hfound
    rw [hfound]
    rfl
  · rename_i pfx tokenId hfound
    rw [hfound]
    rfl

section Cuts
variable (hrep : t.tree.Represents cs d) {s u : Bytes}
  (hclean : ¬ Straddles (fun w => (d w).isSome = true) s u)
include hrep hclean

/-- The loop comes to the cut as it comes to the end of the first part. -/
theorem encodeLoop_append {strIdx : Nat} (hle : strIdx ≤ s.length) (ids : List Int32) :
    t.encodeLoop cs (s ++ u) strIdx ids =
      (t.encodeLoop cs s strIdx ids >>= fun ids => t.encodeLoop cs (s ++ u) s.length ids) := by
  induction hn : s.length - strIdx using Nat.strongRecOn generalizing strIdx ids with
  | ind n ih =>
    by_cases hlt : strIdx < s.length
    · have hdrop : (s ++ u).drop strIdx = s.drop strIdx ++ u :=
        List.drop_append_of_le_length hle
      have hne : s.drop strIdx ≠ [] := fun hnil => by
        rw [List.drop_eq_nil_iff] at hnil
        omega
      have hfound : t.tree.findLongestPrefix cs ((s ++ u).drop strIdx) =
          t.tree.findLongestPrefix cs (s.drop strIdx) := by
        rw [hdrop]
        exact hrep.findLongestPrefix_congr fun w hw =>
          prefix_append_iff hclean hne (List.drop_suffix _ _) hw
      have hlt' : strIdx < (s ++ u).length := by
        rw [List.length_append]
        omega
      rw [encodeLoop_of_lt hlt, encodeLoop_of_lt hlt', hfound]
      cases hword : t.tree.findLongestPrefix cs (s.drop strIdx) with
      | error e => rfl
      | ok found =>
        -- the word ends in front of the cut
        have hlongest := (hrep.findLongestPrefix_ok.mp hword).1
        have hpos := List.length_pos_of_ne_nil hlongest.ne_nil
        have hend := hlongest.begins.length_le
        rw [List.length_drop] at hend
        exact ih _ (by omega) (by omega) _ rfl
    · obtain rfl : strIdx = s.length := by omega
      have hdone : t.encodeLoop cs s s.length ids = .ok ids := by
        rw [encodeLoop, dif_neg hlt]
      rw [hdone]
      rfl

/-- **A clean cut**: the two parts are encoded one after the other. -/
theorem encodeImpl_append (options : EncodeOptions) :
    t.encodeImpl cs (s ++ u) options = (t.encodeImpl cs s options >>= fun ids =>
      (t.encodeImpl cs u options).map (ids ++ ·)) := by
  rw [encodeImpl, encodeLoop_append hrep hclean (Nat.zero_le _) []]
  refine congrArg _ (funext fun ids => ?_)
  have hdrop := @encodeLoop_drop cs t (s ++ u) s.length 0 ids []
  rwa [Nat.add_zero, List.append_nil, List.drop_left] at hdrop

end Cuts

/-- Clean cuts everywhere: the pieces are encoded one by one. -/
theorem encodeImpl_pieces (hrep : t.tree.Represents cs d) (options : EncodeOptions)
    {pieces : List Bytes} (hclean : ∀ before after, pieces = before ++ after →
      ¬ Straddles (fun w => (d w).isSome = true) before.flatten after.flatten) :
    t.encodeImpl cs pieces.flatten options =
      (pieces.mapM fun piece => t.encodeImpl cs piece options).map List.flatten := by
  induction pieces with
  | nil =>
    rw [List.flatten_nil, encodeImpl, encodeLoop_done rfl]
    rfl
  | cons piece pieces ih =>
    have hcut : ¬ Straddles (fun w => (d w).isSome = true) piece pieces.flatten := by
      have h := hclean [piece] pieces rfl
      rwa [List.flatten_singleton] at h
    have hrest := ih fun before after heq hstraddles => by
      refine hclean (piece :: before) after (by rw [heq]; rfl) (hstraddles.of_suffix ?_)
      exact List.suffix_append _ _
    rw [List.flatten_cons, encodeImpl_append hrep hcut, hrest, List.mapM_cons]
    cases t.encodeImpl cs piece options with
    | error e => rfl
    | ok ids =>
      cases pieces.mapM fun piece => t.encodeImpl cs piece options with
      | error e => rfl
      | ok batch => rfl

variable {m : Finmap fun _ : Int32 => Bytes}

/-- The words of the vocabulary are the words that have an id. -/
theorem LoadedFrom.isSome_iff (h : LoadedFrom cs m t) {w : Bytes} :
    (t.word2idx.lookup w).isSome = true ↔ ∃ id, m.lookup id = some w := by
  constructor
  · intro hw
    obtain ⟨id, hid⟩ := Option.isSome_iff_exists.mp hw
    exact ⟨id, h.word_of_id hid⟩
  · rintro ⟨id, hid⟩
    exact h.isSome_of_mem hid

/-- The words of a list of known ids. -/
theorem LoadedFrom.words_of_decode (h : LoadedFrom cs m t) {ids : List Int32}
    (hids : ∀ id ∈ ids, id ∈ m) {str s : Bytes} (hdecode : t.decodeLoop str ids = .ok s) :
    ∃ vs : List Bytes, vs.length = ids.length ∧ s = str ++ vs.flatten ∧
      ∀ v ∈ vs, ∃ id, m.lookup id = some v := by
  induction ids generalizing str with
  | nil => exact ⟨[], rfl, by rw [List.flatten_nil, List.append_nil, Except.ok.inj hdecode], nofun⟩
  | cons id ids ih =>
    obtain ⟨v, hv⟩ := Finmap.mem_iff.mp (hids id List.mem_cons_self)
    rw [decodeLoop, h.idToToken_of_lookup hv] at hdecode
    obtain ⟨vs, hlen, rfl, hvs⟩ := ih (fun id hid => hids id (List.mem_cons_of_mem _ hid)) hdecode
    refine ⟨v :: vs, congrArg Nat.succ hlen, ?_, ?_⟩
    · rw [List.flatten_cons, List.append_assoc]
    · intro w hw
      rcases List.mem_cons.mp hw with rfl | hw
      · exact ⟨id, hv⟩
      · exact hvs w hw

/-- **Encoding is shortest** in a vocabulary in which every end of a word is a word: a text
that some ids of the vocabulary decode to is encoded, and by no more ids. -/
theorem encode_shortest (h : LoadedFrom cs m t) (hsentinel : (-1 : Int32) ∉ m)
    (hclosed : ∀ id w v, m.lookup id = some w → v <:+ w → v ≠ [] →
      ∃ id', m.lookup id' = some v)
    {ids : List Int32} (hids : ∀ id ∈ ids, id ∈ m) {s : Bytes} (hdecode : t.decode ids = .ok s)
    (options : EncodeOptions) :
    ∃ ids', t.encodeImpl cs s options = .ok ids' ∧ ids'.length ≤ ids.length := by
  obtain ⟨vs, hlen, hflatten, hvs⟩ := h.words_of_decode hids hdecode
  have hsuffix : SuffixClosed t.word2idx.lookup := by
    intro w v hw hv hne
    obtain ⟨id, hid⟩ := h.isSome_iff.mp hw
    exact h.isSome_iff.mpr (hclosed id w v hid hv hne)
  have hok : ∀ w i, t.word2idx.lookup w = some i → i ≠ -1 := by
    rintro w i hi rfl
    exact hsentinel (Finmap.mem_of_lookup_eq_some (h.word_of_id hi))
  obtain ⟨ws, ts, hrun, hle⟩ := exists_run_of_suffixClosed hsuffix hok
    (fun v hv => h.isSome_iff.mpr (hvs v hv)) (show vs.flatten = [] ++ s from hflatten.symm)
  refine ⟨ts, (encodeImpl_ok_iff h.represents).mpr ⟨ws, hrun⟩, ?_⟩
  -- there is an id for each word of the run
  have hcount := congrArg List.length hrun.ids.1
  rw [List.length_map, List.length_map] at hcount
  omega

/-- The words of `{0: "a", 1: "b"}` have one byte. -/
theorem length_of_abIdx2Word {id : Int32} {w : Bytes}
    (hw : abIdx2Word.toFinmap.lookup id = some w) : w.length = 1 := by
  have hmem : ⟨id, w⟩ ∈ abIdx2Word.entries := AList.mem_lookup_iff.mp hw
  have hall : ∀ pair ∈ abIdx2Word.entries, pair.2.length = 1 := by decide
  exact hall _ hmem

/-- `"ab"` is encoded by no more ids than `[0, 1]`. -/
theorem encode_shortest_ab : ∃ ids', abTokenizer.encodeImpl .signed [0x61, 0x62] {} = .ok ids' ∧
    ids'.length ≤ [(0 : Int32), 1].length := by
  have hknown : ∀ id ∈ [(0 : Int32), 1], id ∈ abIdx2Word.toFinmap := by
    intro id hid
    rcases List.mem_pair.mp hid with rfl | rfl
    · decide
    · decide
  refine encode_shortest abTokenizer_loaded (by decide) (fun id w v hw hv hne => ⟨id, ?_⟩)
    hknown (by decide +kernel) {}
  -- an end of a one-byte word is the word
  have hpos := List.length_pos_of_ne_nil hne
  have hone := length_of_abIdx2Word hw
  rw [hv.eq_of_length_le (by omega)]
  exact hw

end RWKVWorldTokenizer

namespace Tokenizer

open RWKVWorldTokenizer

variable {cs : CharSign} {m : Finmap fun _ : Int32 => Bytes} {t : RWKVWorldTokenizer}
  {crates : Crates} {lib : SentencePieceLibrary}

/-- **A text in pieces.**  If no word of the vocabulary straddles a cut, `Encode` of the whole
text returns the ids that `EncodeBatch` finds in the pieces, or throws what it throws. -/
theorem encode_pieces (h : LoadedFrom cs m t) {pieces : List Bytes}
    (hclean : ∀ before after, pieces = before ++ after →
      ¬ Straddles (fun w => ∃ id, m.lookup id = some w) before.flatten after.flatten)
    (options : EncodeOptions) (σ σ' : Ledger) :
    ((rwkvWorld t : Tokenizer crates lib).encode cs pieces.flatten options σ).1 =
      ((rwkvWorld t : Tokenizer crates lib).encodeBatch cs pieces options σ').1.map
        List.flatten := by
  have hwords : (fun w => (t.word2idx.lookup w).isSome = true) =
      fun w => ∃ id, m.lookup id = some w := funext fun w => propext h.isSome_iff
  rw [encode_fst, encodeBatch]
  cases validateEncodeOptions options (rwkvWorld t : Tokenizer crates lib).supportsEncodeFlags with
  | error e => rfl
  | ok u =>
    show t.encodeImpl cs pieces.flatten options = (encodeBatchLoop (fun piece =>
      (rwkvWorld t : Tokenizer crates lib).encodeImpl cs piece options) [] pieces σ').1.map
        List.flatten
    rw [encodeBatchLoop_fst fun piece σ =>
        (rwkvWorld t : Tokenizer crates lib).encodeImpl_fst cs piece options σ,
      encodeImpl_pieces h.represents options (hwords ▸ hclean)]
    show _ = Except.map List.flatten (Except.map ([] ++ ·)
      (pieces.mapM fun piece => t.encodeImpl cs piece options))
    cases pieces.mapM fun piece => t.encodeImpl cs piece options with
    | error e => rfl
    | ok batch => rfl

/-- `"ab"` in two pieces. -/
theorem encode_pieces_ab :
    ((rwkvWorld abTokenizer : Tokenizer SampleLibrary.crates SampleLibrary.sentencePiece).encode
        .signed [[0x61], [0x62]].flatten {} Ledger.initial).1 =
      ((rwkvWorld abTokenizer : Tokenizer SampleLibrary.crates
        SampleLibrary.sentencePiece).encodeBatch .signed [[0x61], [0x62]] {}
          Ledger.initial).1.map List.flatten := by
  refine encode_pieces abTokenizer_loaded (fun before after _ hstraddles => ?_) {} _ _
  obtain ⟨x, w, hne, -, ⟨id, hw⟩, -, hlt⟩ := hstraddles
  have hpos := List.length_pos_of_ne_nil hne
  have hone := length_of_abIdx2Word hw
  omega

end Tokenizer

end TokenizersCpp
