import TokenizersCpp.BatchParity

/-!
# Cutting and reordering a batch

Apart from padding, each row of a batch is the row of its own text; and padding looks
at the other rows only for the greatest length.  So the order of a batch does not
matter (`encodeBatch_perm`), and a batch that is encoded in parts is the whole batch
once the parts are padded together, as if their rows had never been padded
(`encodeBatch_flatten`).  Only `BatchLongest` padding makes the second padding
necessary, and only the second padding can fail where all parts return: when a row that
no part had to pad is now too short, and the pad id does not fit `int32` (`PadIdFits`).
-/

namespace TokenizersCpp

open Tokenizer Traversal

/-! ## What padding does to the rows -/

section Padding
variable {params : PaddingParams} {padding : Option PaddingParams}

theorem PadsTo.length_eq {target : Nat} {own padded : List Int32}
    (h : PadsTo params target own padded) : padded.length = max target own.length := by
  unfold PadsTo at h
  split at h
  · rename_i hle
    rw [h, max_eq_right hle]
  · obtain ⟨padId, -, rfl⟩ := h
    exact params.length_padWith padId target own

/-- A row that is padded twice is padded to the greater length. -/
theorem padsTo_comp {mid target : Nat} (hle : mid ≤ target) :
    PadsTo params target = Relation.Comp (PadsTo params mid) (PadsTo params target) := by
  funext own out
  refine propext ⟨fun h => ?_, ?_⟩
  · by_cases hmid : mid ≤ own.length
    · exact ⟨own, by rw [PadsTo, if_pos hmid], h⟩
    · -- the row is too short for either length, so the pad id has been converted
      rw [PadsTo, if_neg (by omega)] at h
      obtain ⟨padId, hpad, rfl⟩ := h
      have hlength := params.length_padWith padId mid own
      refine ⟨params.padWith padId mid own, ?_, ?_⟩
      · rw [PadsTo, if_neg hmid]
        exact ⟨padId, hpad, rfl⟩
      · rw [PadsTo]
        split
        · obtain rfl : mid = target := by omega
          rfl
        · exact ⟨padId, hpad, (params.padWith_padWith padId hle own).symm⟩
  · rintro ⟨own', hmid, h⟩
    have hlength := hmid.length_eq
    unfold PadsTo at hmid h ⊢
    by_cases htarget : target ≤ own.length
    · rw [if_pos (hle.trans htarget)] at hmid
      subst hmid
      rwa [if_pos htarget] at h ⊢
    · rw [if_neg htarget]
      by_cases hshort : mid ≤ own.length
      · rw [if_pos hshort] at hmid
        subst hmid
        rwa [if_neg htarget] at h
      · rw [if_neg hshort] at hmid
        obtain ⟨padId, hpad, rfl⟩ := hmid
        refine ⟨padId, hpad, ?_⟩
        split at h
        · obtain rfl : mid = target := by omega
          exact h
        · obtain ⟨padId', hpad', rfl⟩ := h
          obtain rfl := Except.ok.inj (hpad.symm.trans hpad')
          exact params.padWith_padWith padId hle own

/-- The padded length of a batch and of its padded parts. -/
theorem padLength_parts {singles parts : List (List (List Int32))}
    (h : List.Forall₂ (BatchPads (some params)) singles parts) :
    params.padLength (parts.flatten.map List.length) =
      params.padLength (singles.flatten.map List.length) := by
  refine le_antisymm (params.padLength_le fun hlongest n hn => ?_)
    (params.padLength_le fun hlongest n hn => ?_)
  · obtain ⟨padded, hpadded, rfl⟩ := List.mem_map.mp hn
    obtain ⟨part, hpart, hmem⟩ := List.mem_flatten.mp hpadded
    obtain ⟨chunk, hchunk, hrows⟩ := exists_left_of_mem h hpart
    obtain ⟨own, hown, hpads⟩ := exists_left_of_mem hrows hmem
    have hrow : ∀ own ∈ chunk, own.length ≤
        params.padLength (singles.flatten.map List.length) := fun own hown =>
      params.le_padLength hlongest
        (List.mem_map_of_mem (List.mem_flatten.mpr ⟨chunk, hchunk, hown⟩))
    rw [hpads.length_eq]
    refine max_le (params.padLength_le fun _ n hn => ?_) (hrow own hown)
    obtain ⟨own', hown', rfl⟩ := List.mem_map.mp hn
    exact hrow own' hown'
  · obtain ⟨own, hown, rfl⟩ := List.mem_map.mp hn
    obtain ⟨chunk, hchunk, hmem⟩ := List.mem_flatten.mp hown
    obtain ⟨part, hpart, hrows⟩ := exists_left_of_mem h.flip hchunk
    obtain ⟨padded, hpadded, hpads⟩ := exists_left_of_mem (List.Forall₂.flip hrows) hmem
    have hle : own.length ≤ padded.length := by
      rw [PadsTo.length_eq hpads]
      exact le_max_right _ _
    exact hle.trans (params.le_padLength hlongest
      (List.mem_map_of_mem (List.mem_flatten.mpr ⟨part, hpart, hpadded⟩)))

/-- **Padding in parts**: the parts, padded once more and together, are the whole. -/
theorem batchPads_flatten {singles : List (List (List Int32))} {out : List (List Int32)} :
    BatchPads padding singles.flatten out ↔
      ∃ parts, List.Forall₂ (BatchPads padding) singles parts ∧
        BatchPads padding parts.flatten out := by
  cases padding with
  | none =>
    constructor
    · rintro rfl
      exact ⟨singles, List.forall₂_same.mpr fun _ _ => rfl, rfl⟩
    · rintro ⟨parts, hparts, rfl⟩
      have heq : List.Forall₂ (· = ·) singles parts := hparts.imp fun _ _ h => h.symm
      rw [List.forall₂_eq_eq_eq] at heq
      rw [heq]
      rfl
  | some params =>
    let target := params.padLength (singles.flatten.map List.length)
    have hchunk : ∀ chunk ∈ singles, ∀ rows, List.Forall₂ (PadsTo params target) chunk rows ↔
        Relation.Comp (BatchPads (some params)) (List.Forall₂ (PadsTo params target)) chunk
          rows := by
      intro chunk hchunk rows
      have hle : params.padLength (chunk.map List.length) ≤ target := by
        refine params.padLength_le fun hlongest n hn => params.le_padLength hlongest ?_
        obtain ⟨own, hown, rfl⟩ := List.mem_map.mp hn
        exact List.mem_map_of_mem (List.mem_flatten.mpr ⟨chunk, hchunk, hown⟩)
      conv_lhs => rw [padsTo_comp hle]
      exact forall₂_comp
    have hwhole : ∀ parts, List.Forall₂ (BatchPads (some params)) singles parts →
        (BatchPads (some params) parts.flatten out ↔
          List.Forall₂ (PadsTo params target) parts.flatten out) := by
      intro parts hparts
      rw [BatchPads, padLength_parts hparts]
    calc List.Forall₂ (PadsTo params target) singles.flatten out
        ↔ ∃ outs, List.Forall₂ (Relation.Comp (BatchPads (some params))
            (List.Forall₂ (PadsTo params target))) singles outs ∧ outs.flatten = out := by
          rw [forall₂_flatten]
          exact exists_congr fun outs => and_congr_left fun _ => forall₂_congr_left hchunk
      _ ↔ ∃ parts, List.Forall₂ (BatchPads (some params)) singles parts ∧
            List.Forall₂ (PadsTo params target) parts.flatten out := by
          simp only [forall₂_comp, forall₂_flatten]
          constructor
          · rintro ⟨outs, ⟨parts, hparts, hrows⟩, hout⟩
            exact ⟨parts, hparts, outs, hrows, hout⟩
          · rintro ⟨parts, hparts, outs, hrows, hout⟩
            exact ⟨outs, ⟨parts, hparts, hrows⟩, hout⟩
      _ ↔ _ := exists_congr fun parts => and_congr_right fun hparts => (hwhole parts hparts).symm

/-- The pad id of a row that is too short fits `int32`. -/
def PadIdFits (padding : Option PaddingParams) (rows : List (List Int32)) : Prop :=
  ∀ params, padding = some params → ∀ own ∈ rows,
    own.length < params.padLength (rows.map List.length) → params.padId ≤ 0x7fffffff

theorem exists_convertId_iff {id : UInt32} :
    (∃ converted, convertId id = .ok converted) ↔ id ≤ 0x7fffffff := by
  unfold convertId
  split
  · rename_i hbig
    exact iff_of_false nofun (UInt32.not_le.mpr hbig)
  · rename_i hsmall
    exact iff_of_true ⟨_, rfl⟩ (UInt32.not_lt.mp hsmall)

theorem exists_padsTo_iff {target : Nat} {own : List Int32} :
    (∃ padded, PadsTo params target own padded) ↔
      (own.length < target → params.padId ≤ 0x7fffffff) := by
  unfold PadsTo
  by_cases hle : target ≤ own.length
  · simp only [if_pos hle, exists_eq, true_iff]
    exact fun hlt => absurd hlt (not_lt.mpr hle)
  · simp only [if_neg hle, not_le.mp hle, true_imp_iff, ← exists_convertId_iff]
    constructor
    · rintro ⟨_, padId, hpad, -⟩
      exact ⟨padId, hpad⟩
    · rintro ⟨padId, hpad⟩
      exact ⟨_, padId, hpad, rfl⟩

/-- **When rows can be padded together**. -/
theorem exists_batchPads_iff {rows : List (List Int32)} :
    (∃ out, BatchPads padding rows out) ↔ PadIdFits padding rows := by
  cases padding with
  | none => exact iff_of_true ⟨rows, rfl⟩ nofun
  | some params =>
    calc (∃ out, BatchPads (some params) rows out)
        ↔ ∀ own ∈ rows, ∃ padded,
            PadsTo params (params.padLength (rows.map List.length)) own padded := exists_forall₂
      _ ↔ _ := by
        simp only [exists_padsTo_iff, PadIdFits, Option.some.injEq, forall_eq']

/-- What padding makes of one row, given the lengths of all. -/
def RowPads (padding : Option PaddingParams) (lengths : List Nat) (own padded : List Int32) :
    Prop :=
  match padding with
  | none => padded = own
  | some params => PadsTo params (params.padLength lengths) own padded

theorem batchPads_iff_rows {singles out : List (List Int32)} :
    BatchPads padding singles out ↔
      List.Forall₂ (RowPads padding (singles.map List.length)) singles out := by
  cases padding with
  | none =>
    have heq : BatchPads none singles out ↔ List.Forall₂ (· = ·) out singles := by
      rw [List.forall₂_eq_eq_eq]
      rfl
    exact heq.trans ⟨List.Forall₂.flip, List.Forall₂.flip⟩
  | some params => exact Iff.rfl

/-- It depends only on which lengths there are. -/
theorem rowPads_congr {lengths lengths' : List Nat} (h : ∀ n, n ∈ lengths ↔ n ∈ lengths') :
    RowPads padding lengths = RowPads padding lengths' := by
  cases padding with
  | none => rfl
  | some params =>
    have hlength : params.padLength lengths = params.padLength lengths' := by
      apply le_antisymm
      · exact params.padLength_le fun hlongest n hn => params.le_padLength hlongest ((h n).mp hn)
      · exact params.padLength_le fun hlongest n hn => params.le_padLength hlongest ((h n).mpr hn)
    funext own padded
    simp only [RowPads, hlength]

/-- Without `BatchLongest`, the padded parts are padded already. -/
theorem batchPads_parts_iff (hfixed : ∀ params, padding = some params →
      params.strategy ≠ .batchLongest) {singles parts : List (List (List Int32))}
    (h : List.Forall₂ (BatchPads padding) singles parts) {out : List (List Int32)} :
    BatchPads padding parts.flatten out ↔ out = parts.flatten := by
  refine batchPads_iff (fun params hparams padded hpadded => ?_)
    fun params hparams hlongest => absurd hlongest (hfixed params hparams)
  subst hparams
  obtain ⟨part, hpart, hmem⟩ := List.mem_flatten.mp hpadded
  obtain ⟨chunk, -, hrows⟩ := exists_left_of_mem h hpart
  obtain ⟨own, -, hpads⟩ := exists_left_of_mem hrows hmem
  rw [hpads.length_eq]
  refine le_trans ?_ (le_max_left _ _)
  exact params.padLength_le fun hlongest => absurd hlongest (hfixed params rfl)

end Padding

/-! ## What it does to a batch call -/

section Batches
variable {crates : Crates} {lib : SentencePieceLibrary} {view : PaddingView crates}
  {cs : CharSign} {t : Tokenizer crates lib} {options : EncodeOptions}

/-- **The rows of a batch call** whose options are accepted; the batch may be empty. -/
theorem encodeBatch_eq_ok_of_accepted (doc : view.Documented) (hmade : t.MadeByFactory cs)
    (haccepted : options.Accepted t.supportsEncodeFlags) (texts : List Bytes) {σ : Ledger}
    {out : List (List Int32)} : (t.encodeBatch cs texts options σ).1 = .ok out ↔
      ∃ singles, List.Forall₂ (fun text ids => ∀ σ, (t.encode cs text options σ).1 = .ok ids)
        texts singles ∧ BatchPads (loadedPadding view t) singles out := by
  by_cases hne : texts = []
  · subst hne
    have hnil : t.encodeBatchOutcome cs [] options = .ok [] := by
      cases t <;> rfl
    have hpads : BatchPads (loadedPadding view t) [] out ↔ out = [] := by
      rw [batchPads_iff_rows, List.forall₂_nil_left_iff]
    rw [encodeBatch_fst cs doc.batchAligned, validateEncodeOptions_eq_ok.mpr haccepted]
    simp only [List.forall₂_nil_left_iff, exists_eq_left, hpads]
    change t.encodeBatchOutcome cs [] options = .ok out ↔ out = []
    rw [hnil]
    exact ⟨fun h => (Except.ok.inj h).symm, fun h => congrArg Except.ok h.symm⟩
  · exact encodeBatch_eq_ok doc hmade hne

/-- A rejected call returns for no batch. -/
theorem encodeBatch_ne_ok (hrejected : ¬ options.Accepted t.supportsEncodeFlags)
    (texts : List Bytes) (σ : Ledger) (out : List (List Int32)) :
    (t.encodeBatch cs texts options σ).1 ≠ .ok out := by
  obtain ⟨e, -, -, hlist⟩ := rejected_code cs t hrejected
  rw [hlist]
  exact nofun

/-- **The order of a batch** does not matter: with its texts in another order, the call
returns the same rows in that order. -/
theorem encodeBatch_perm (doc : view.Documented) (hmade : t.MadeByFactory cs)
    {rows rows' : List (Bytes × List Int32)} (hperm : rows.Perm rows') {σ σ' : Ledger}
    (h : (t.encodeBatch cs (rows.map Prod.fst) options σ).1 = .ok (rows.map Prod.snd)) :
    (t.encodeBatch cs (rows'.map Prod.fst) options σ').1 = .ok (rows'.map Prod.snd) := by
  have haccepted : options.Accepted t.supportsEncodeFlags :=
    by_contra fun hrejected => encodeBatch_ne_ok hrejected _ σ _ h
  rw [encodeBatch_eq_ok_of_accepted doc hmade haccepted] at h ⊢
  simp only [batchPads_iff_rows, List.forall₂_map_left_iff, List.forall₂_map_right_iff] at h ⊢
  obtain ⟨singles, hsingles, hpads⟩ := h
  -- one list of single results for both facts, to be reordered with the rows
  obtain ⟨singles', hrows', hperm'⟩ :=
    List.perm_comp_forall₂ hperm.symm (forall₂_and.mpr ⟨hsingles, hpads.flip⟩)
  obtain ⟨hsingles', hpads'⟩ := forall₂_and.mp hrows'
  refine ⟨singles', hsingles', ?_⟩
  rw [rowPads_congr fun n => (hperm'.map List.length).mem_iff]
  exact hpads'.flip

variable (cs t options) in
/-- The calls on the parts of a batch return these lists. -/
def PartsReturn (chunks : List (List Bytes)) (parts : List (List (List Int32))) : Prop :=
  List.Forall₂ (fun chunk part => ∀ σ, (t.encodeBatch cs chunk options σ).1 = .ok part)
    chunks parts

section Parts
variable {chunks : List (List Bytes)} {parts : List (List (List Int32))}

/-- A rejected call returns for no part. -/
theorem PartsReturn.accepted (h : PartsReturn cs t options chunks parts) (hne : chunks ≠ []) :
    options.Accepted t.supportsEncodeFlags := by
  by_contra hrejected
  obtain ⟨chunk, chunks, rfl⟩ := List.exists_cons_of_ne_nil hne
  obtain ⟨part, _, hpart, -, -⟩ := List.forall₂_cons_left_iff.mp h
  exact encodeBatch_ne_ok hrejected chunk Ledger.initial part (hpart Ledger.initial)

/-- The parts are padded lists of the single calls. -/
theorem partsReturn_iff (doc : view.Documented) (hmade : t.MadeByFactory cs)
    (haccepted : options.Accepted t.supportsEncodeFlags) :
    PartsReturn cs t options chunks parts ↔
      ∃ singles, List.Forall₂ (List.Forall₂ fun text ids =>
          ∀ σ, (t.encode cs text options σ).1 = .ok ids) chunks singles ∧
        List.Forall₂ (BatchPads (loadedPadding view t)) singles parts := by
  rw [← forall₂_comp]
  refine forall₂_congr_left fun chunk _ part => ?_
  simp only [encodeBatch_eq_ok_of_accepted doc hmade haccepted]
  exact ⟨fun h => h Ledger.initial, fun h _ => h⟩

/-- The batch returns what padding makes of the rows of the parts. -/
theorem encodeBatch_eq_ok_iff_parts (doc : view.Documented) (hmade : t.MadeByFactory cs)
    (hne : chunks ≠ []) {σ : Ledger} {out : List (List Int32)} :
    (t.encodeBatch cs chunks.flatten options σ).1 = .ok out ↔
      ∃ parts, PartsReturn cs t options chunks parts ∧
        BatchPads (loadedPadding view t) parts.flatten out := by
  by_cases haccepted : options.Accepted t.supportsEncodeFlags
  · simp only [partsReturn_iff doc hmade haccepted]
    rw [encodeBatch_eq_ok_of_accepted doc hmade haccepted]
    simp only [forall₂_flatten]
    constructor
    · rintro ⟨_, ⟨singles, hsingles, rfl⟩, hpads⟩
      obtain ⟨parts, hparts, hout⟩ := batchPads_flatten.mp hpads
      exact ⟨parts, ⟨singles, hsingles, hparts⟩, hout⟩
    · rintro ⟨parts, ⟨singles, hsingles, hparts⟩, hout⟩
      exact ⟨_, ⟨singles, hsingles, rfl⟩, batchPads_flatten.mpr ⟨parts, hparts, hout⟩⟩
  · exact iff_of_false (encodeBatch_ne_ok haccepted chunks.flatten σ out)
      fun ⟨parts, hparts, _⟩ => haccepted (hparts.accepted hne)

/-- **A batch in parts**, of which there is at least one: it returns exactly when the calls
on its parts do and their rows can be padded together.  Then it returns the rows of the
parts, padded once more and together; without `BatchLongest` padding, just the rows of the
parts. -/
theorem encodeBatch_flatten (doc : view.Documented) (hmade : t.MadeByFactory cs)
    (hne : chunks ≠ []) (σ : Ledger) :
    ((∃ out, (t.encodeBatch cs chunks.flatten options σ).1 = .ok out) ↔
      ∃ parts, PartsReturn cs t options chunks parts ∧
        PadIdFits (loadedPadding view t) parts.flatten) ∧
    (∀ out, (t.encodeBatch cs chunks.flatten options σ).1 = .ok out ↔
      ∃ parts, PartsReturn cs t options chunks parts ∧
        BatchPads (loadedPadding view t) parts.flatten out) ∧
    ((∀ params, loadedPadding view t = some params → params.strategy ≠ .batchLongest) →
      ∀ out, (t.encodeBatch cs chunks.flatten options σ).1 = .ok out ↔
        ∃ parts, PartsReturn cs t options chunks parts ∧ out = parts.flatten) := by
  have hwhole : ∀ out, (t.encodeBatch cs chunks.flatten options σ).1 = .ok out ↔
      ∃ parts, PartsReturn cs t options chunks parts ∧
        BatchPads (loadedPadding view t) parts.flatten out :=
    fun _ => encodeBatch_eq_ok_iff_parts doc hmade hne
  refine ⟨?_, hwhole, fun hfixed out => ?_⟩
  · simp only [hwhole, ← exists_batchPads_iff]
    constructor
    · rintro ⟨out, parts, hparts, hout⟩
      exact ⟨parts, hparts, out, hout⟩
    · rintro ⟨parts, hparts, out, hout⟩
      exact ⟨out, parts, hparts, hout⟩
  · refine (hwhole out).trans (exists_congr fun parts => and_congr_right fun hparts => ?_)
    obtain ⟨singles, -, hpads⟩ :=
      (partsReturn_iff doc hmade (hparts.accepted hne)).mp hparts
    exact batchPads_parts_iff hfixed hpads

end Parts

end Batches

/-! ## A batch with `BatchLongest` padding -/

namespace SampleLibrary

/-- The tokenizer of the padded JSON. -/
def longest : Tokenizer crates sentencePiece := .huggingFace (loaded paddedTokenizer)

theorem longest_made : longest.MadeByFactory .signed := .json (loaded_made fromStr_padded)

theorem encodeBatch_longest (σ : Ledger) :
    (longest.encodeBatch .signed (["a", "ab"].map strBytes) {} σ).1 = .ok [[0, 5], [0, 1]] := by
  rw [encodeBatch_fst _ view_documented.padded.batchAligned]
  show (loaded paddedTokenizer).encodeBatchOutcome (["a", "ab"].map strBytes) {} = _
  rw [HFTokenizer.encodeBatchOutcome_strBytes (loaded_handle _) (List.cons_ne_nil _ _)]
  decide

end SampleLibrary

open SampleLibrary

/-- The texts `"a"` and `"ab"` in the other order. -/
theorem encodeBatch_perm_longest :
    (longest.encodeBatch .signed [strBytes "ab", strBytes "a"] {} Ledger.initial).1 =
      .ok [[0, 1], [0, 5]] :=
  encodeBatch_perm view_documented.padded longest_made
    (List.Perm.swap (strBytes "ab", [0, 1]) (strBytes "a", [0, 5]) [])
    (encodeBatch_longest Ledger.initial)

/-- The same texts, each in a part of its own. -/
theorem encodeBatch_flatten_longest : ∃ parts,
    PartsReturn .signed longest {} [[strBytes "a"], [strBytes "ab"]] parts ∧
    BatchPads (loadedPadding view.toPaddingView longest) parts.flatten [[0, 5], [0, 1]] := by
  obtain ⟨-, hwhole, -⟩ := encodeBatch_flatten view_documented.padded longest_made
    (List.cons_ne_nil [strBytes "a"] [[strBytes "ab"]]) Ledger.initial
  exact (hwhole _).mp (encodeBatch_longest Ledger.initial)

end TokenizersCpp
