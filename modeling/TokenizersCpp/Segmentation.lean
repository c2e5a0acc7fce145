import TokenizersCpp.LongestMatch

/-!
# Segmentations

Two facts about the words in a text, next to the greedy runs of `LongestMatch`.

A word **straddles** a cut of a text when an occurrence of it begins in front of the cut
and ends behind it (`Straddles`).  Where no word straddles the cut, the words that a rest
in front of it begins with do not depend on what stands behind it (`prefix_append_iff`).

In a **suffix-closed** dictionary every end of a word is a word.  Then the greedy run is
never behind another segmentation of the text into words, so it does not get stuck, and
it takes the fewest words (`exists_run_of_suffixClosed`).
-/

namespace LongestMatch

variable {α ι : Type*}

/-! ## Cuts -/

/-- A word occurs in `s ++ u` that begins inside `s` and ends inside `u`. -/
def Straddles (word : List α → Prop) (s u : List α) : Prop :=
  ∃ x w, x ≠ [] ∧ x <:+ s ∧ word w ∧ w <+: x ++ u ∧ x.length < w.length

variable {word : List α → Prop} {s u : List α}

/-- What a rest in front of the cut begins with. -/
theorem prefix_append_iff (hclean : ¬ Straddles word s u) {x w : List α} (hne : x ≠ [])
    (hx : x <:+ s) (hw : word w) : w <+: x ++ u ↔ w <+: x := by
  constructor
  · intro hpre
    have hle : w.length ≤ x.length := by
      by_contra hlt
      exact hclean ⟨x, w, hne, hx, hw, hpre, Nat.not_le.mp hlt⟩
    exact List.prefix_of_prefix_length_le hpre (List.prefix_append x u) hle
  · intro hpre
    exact hpre.trans (List.prefix_append x u)

/-- A cut stays clean when the text in front of it gets shorter. -/
theorem Straddles.of_suffix {s' : List α} (h : Straddles word s u) (hs : s <:+ s') :
    Straddles word s' u := by
  obtain ⟨x, w, hne, hx, hw, hpre, hlt⟩ := h
  exact ⟨x, w, hne, hx.trans hs, hw, hpre, hlt⟩

/-! ## Suffix-closed dictionaries -/

variable {d : List α → Option ι} {ok : ι → Prop}

/-- Every non-empty end of a word is a word. -/
def SuffixClosed (d : List α → Option ι) : Prop :=
  ∀ w v, (d w).isSome → v <:+ w → v ≠ [] → (d v).isSome

/-- **The greedy run is never behind.**  Another segmentation of the text, which has the part
`x` of it still to go, takes at least as many words. -/
theorem exists_run_of_suffixClosed (hclosed : SuffixClosed d)
    (hok : ∀ w i, d w = some i → ok i) {x s : List α} {vs : List (List α)}
    (hvs : ∀ v ∈ vs, (d v).isSome) (hflatten : vs.flatten = x ++ s) :
    ∃ ws ts, Run d ok s ws ts [] ∧ ws.length ≤ vs.length := by
  induction vs generalizing x s with
  | nil =>
    obtain ⟨-, rfl⟩ := List.append_eq_nil_iff.mp hflatten.symm
    exact ⟨[], [], .stop [], le_refl 0⟩
  | cons v vs ih =>
    have hrest : ∀ v ∈ vs, (d v).isSome := fun v hv => hvs v (List.mem_cons_of_mem _ hv)
    rw [List.flatten_cons] at hflatten
    rcases List.append_eq_append_iff.mp hflatten with ⟨x', rfl, hx'⟩ | ⟨y, rfl, hs⟩
    · -- the other segmentation does not pass the greedy run with this word
      obtain ⟨ws, ts, hrun, hlen⟩ := ih hrest hx'
      exact ⟨ws, ts, hrun, Nat.le_succ_of_le hlen⟩
    · by_cases hy : y = []
      · obtain ⟨ws, ts, hrun, hlen⟩ := @ih [] s hrest (by rw [hs, hy]; rfl)
        exact ⟨ws, ts, hrun, Nat.le_succ_of_le hlen⟩
      · -- the end of the word that passes it is a word, and greedy strips no less
        have hword := hclosed _ y (hvs _ List.mem_cons_self) (List.suffix_append x y) hy
        obtain ⟨w, hw⟩ := exists_isLongest hy hword (hs ▸ List.prefix_append y vs.flatten)
        obtain ⟨i, hi⟩ := Option.isSome_iff_exists.mp hw.word
        have hle := hw.longest y hword (hs ▸ List.prefix_append y vs.flatten)
        obtain ⟨x', rfl⟩ := List.prefix_of_prefix_length_le
          (hs ▸ List.prefix_append y vs.flatten) hw.begins hle
        obtain ⟨s', rfl⟩ := hw.begins
        rw [List.append_assoc] at hs
        obtain ⟨ws, ts, hrun, hlen⟩ := ih hrest (List.append_cancel_left hs).symm
        exact ⟨_ :: ws, i :: ts, .word hw hi (hok _ i hi) hrun, Nat.succ_le_succ hlen⟩

end LongestMatch
