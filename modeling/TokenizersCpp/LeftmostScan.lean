import Mathlib.Data.List.MinMax
import Mathlib.Data.List.Infix
import Mathlib.Data.List.Pairwise

/-!
# Leftmost-longest scanning

A scan goes through a text from left to right.  At each position it takes the
longest entry whose pattern starts there — the first of several — reports it and
continues behind it; where no entry starts it moves on by one.  The matches of a
scan are disjoint and in order.

Dropping some entries *after* a scan differs from scanning without them: a
dropped match has consumed its text, and may have hidden a match of a remaining
entry.  `filter_scan` shows that this is the only difference, and
`lost_iff_overlap` that each overlap loses a match.
-/

namespace LeftmostScan

variable {α E : Type} [DecidableEq α] (pattern : E → List α)

/-- An entry reported at a position of the text. -/
structure Match (E : Type) where
  start : Nat
  entry : E
deriving DecidableEq, Repr

/-- The position behind a match. -/
def Match.stop (m : Match E) : Nat := m.start + (pattern m.entry).length

/-- Two matches that share a position of the text. -/
def Overlap (m m' : Match E) : Prop :=
  m.start < m'.stop pattern ∧ m'.start < m.stop pattern

instance (m m' : Match E) : Decidable (Overlap pattern m m') := inferInstanceAs (Decidable (_ ∧ _))

/-- The longest entry that starts the text; of several, the first. -/
def longestAt (entries : List E) (text : List α) : Option E :=
  (entries.filter fun e => pattern e ≠ [] ∧ pattern e <+: text).argmax fun e => (pattern e).length

/-- The scan of the rest of a text that begins at position `pos` and whose first
`skip` elements belong to the last match. -/
def scanFrom (entries : List E) : Nat → Nat → List α → List (Match E)
  | _, _, [] => []
  | pos, skip + 1, _ :: text => scanFrom entries (pos + 1) skip text
  | pos, 0, c :: text =>
      match longestAt pattern entries (c :: text) with
      | none => scanFrom entries (pos + 1) 0 text
      | some e => ⟨pos, e⟩ :: scanFrom entries (pos + 1) ((pattern e).length - 1) text

/-- The matches of a text, from left to right. -/
def scan (entries : List E) (text : List α) : List (Match E) := scanFrom pattern entries 0 0 text

/-! ## One position -/

section Longest
variable {pattern} {entries : List E} {text : List α} {e : E}

theorem mem_of_longestAt (h : longestAt pattern entries text = some e) :
    e ∈ entries ∧ pattern e ≠ [] ∧ pattern e <+: text := by
  simpa using List.argmax_mem h

theorem length_pos_of_longestAt (h : longestAt pattern entries text = some e) :
    0 < (pattern e).length :=
  List.length_pos_iff.mpr (mem_of_longestAt h).2.1

/-- The first maximum of a list is the first maximum of every part that has it. -/
theorem argmax_filter {f : E → Nat} {keep : E → Bool} {l : List E} (h : l.argmax f = some e)
    (hkeep : keep e = true) : (l.filter keep).argmax f = some e := by
  induction l using List.reverseRecOn generalizing e with
  | nil => cases h
  | append_singleton l x ih =>
    rw [List.argmax_concat] at h
    rw [List.filter_append]
    cases hl : l.argmax f with
    | none =>
      rw [hl] at h
      obtain rfl := Option.some.inj h
      rw [List.argmax_eq_none.mp hl]
      simp [hkeep]
    | some c =>
      rw [hl] at h
      by_cases hlt : f c < f x
      · -- the new element wins, against every part of the list
        simp only [hlt, if_true] at h
        obtain rfl := Option.some.inj h
        rw [List.filter_cons_of_pos hkeep, List.filter_nil, List.argmax_concat]
        cases hpart : (l.filter keep).argmax f with
        | none => rfl
        | some c' =>
          have hle : f c' ≤ f c :=
            List.le_of_mem_argmax (List.mem_of_mem_filter (List.argmax_mem hpart)) hl
          simp only [lt_of_le_of_lt hle hlt, if_true]
      · -- the old maximum stays, and is kept
        simp only [hlt, if_false] at h
        obtain rfl := Option.some.inj h
        have hpart := ih hl hkeep
        by_cases hx : keep x = true
        · rw [List.filter_cons_of_pos hx, List.filter_nil, List.argmax_concat, hpart]
          simp only [hlt, if_false]
        · rw [List.filter_cons_of_neg hx, List.filter_nil, List.append_nil, hpart]

theorem longestAt_filter {keep : E → Bool} (h : longestAt pattern entries text = some e)
    (hkeep : keep e = true) : longestAt pattern (entries.filter keep) text = some e := by
  rw [longestAt, List.filter_comm]
  exact argmax_filter h hkeep

theorem longestAt_filter_none (keep : E → Bool) (h : longestAt pattern entries text = none) :
    longestAt pattern (entries.filter keep) text = none := by
  rw [longestAt, List.argmax_eq_none] at h ⊢
  rw [List.filter_comm, h, List.filter_nil]

end Longest

/-! ## The matches of a scan -/

section Scan
variable {pattern} {entries : List E}

/-- Where no entry starts, the scan moves on by one. -/
theorem scanFrom_none {pos : Nat} {c : α} {text : List α}
    (h : longestAt pattern entries (c :: text) = none) :
    scanFrom pattern entries pos 0 (c :: text) = scanFrom pattern entries (pos + 1) 0 text := by
  rw [scanFrom, h]

/-- Where one starts, it is reported and skipped. -/
theorem scanFrom_some {pos : Nat} {c : α} {text : List α} {e : E}
    (h : longestAt pattern entries (c :: text) = some e) :
    scanFrom pattern entries pos 0 (c :: text) =
      ⟨pos, e⟩ :: scanFrom pattern entries (pos + 1) ((pattern e).length - 1) text := by
  rw [scanFrom, h]

theorem le_start {pos skip : Nat} {text : List α} {m : Match E}
    (h : m ∈ scanFrom pattern entries pos skip text) : pos + skip ≤ m.start := by
  induction text generalizing pos skip with
  | nil => cases h
  | cons c text ih =>
    cases skip with
    | succ skip =>
      have := ih (h : m ∈ scanFrom pattern entries (pos + 1) skip text)
      omega
    | zero =>
      rw [scanFrom] at h
      split at h
      · have := ih h
        omega
      · rcases List.mem_cons.mp h with rfl | h
        · exact le_refl pos
        · have := ih h
          omega

theorem mem_of_mem_scanFrom {pos skip : Nat} {text : List α} {m : Match E}
    (h : m ∈ scanFrom pattern entries pos skip text) :
    m.entry ∈ entries ∧ 0 < (pattern m.entry).length := by
  induction text generalizing pos skip with
  | nil => cases h
  | cons c text ih =>
    cases skip with
    | succ skip => exact ih (h : m ∈ scanFrom pattern entries (pos + 1) skip text)
    | zero =>
      rw [scanFrom] at h
      split at h
      · exact ih h
      · rename_i e he
        rcases List.mem_cons.mp h with rfl | h
        · exact ⟨(mem_of_longestAt he).1, length_pos_of_longestAt he⟩
        · exact ih h

/-- An entry that is reported occurs in the text. -/
theorem isInfix_of_mem_scanFrom {pos skip : Nat} {text : List α} {m : Match E}
    (h : m ∈ scanFrom pattern entries pos skip text) : pattern m.entry <:+: text := by
  induction text generalizing pos skip with
  | nil => cases h
  | cons c text ih =>
    cases skip with
    | succ skip =>
      exact (ih (h : m ∈ scanFrom pattern entries (pos + 1) skip text)).trans
        (List.suffix_cons c text).isInfix
    | zero =>
      rw [scanFrom] at h
      split at h
      · exact (ih h).trans (List.suffix_cons c text).isInfix
      · rename_i e he
        rcases List.mem_cons.mp h with rfl | h
        · exact (mem_of_longestAt he).2.2.isInfix
        · exact (ih h).trans (List.suffix_cons c text).isInfix

/-- **The matches of a scan are disjoint and in order.** -/
theorem pairwise_scanFrom (pos skip : Nat) (text : List α) :
    (scanFrom pattern entries pos skip text).Pairwise fun m m' => m.stop pattern ≤ m'.start := by
  induction text generalizing pos skip with
  | nil => exact .nil
  | cons c text ih =>
    cases skip with
    | succ skip => exact ih (pos + 1) skip
    | zero =>
      rw [scanFrom]
      split
      · exact ih (pos + 1) 0
      · rename_i e he
        refine .cons (fun m hm => ?_) (ih _ _)
        have hstart := le_start hm
        have hpos := length_pos_of_longestAt he
        show pos + (pattern e).length ≤ m.start
        omega

theorem eq_of_overlap {text : List α} {m m' : Match E} (hm : m ∈ scan pattern entries text)
    (hm' : m' ∈ scan pattern entries text) (h : Overlap pattern m m') : m = m' := by
  by_contra hne
  have hdisjoint : (scan pattern entries text).Pairwise fun m m' => ¬ Overlap pattern m m' :=
    (pairwise_scanFrom 0 0 text).imp fun hle hov => absurd hov.2 (not_lt.mpr hle)
  have : Std.Symm fun m m' => ¬ Overlap pattern m m' := ⟨fun _ _ hno hov => hno ⟨hov.2, hov.1⟩⟩
  exact hdisjoint.forall hm hm' hne h

end Scan

/-! ## Dropping entries before and after the scan -/

section Filter
variable {pattern} {entries : List E} {keep : E → Bool}

/-- While the full scan skips a dropped match, the scan without the dropped
entries finds nothing there; elsewhere the two are at the same position. -/
theorem filter_scanFrom {text : List α} {pos skip skip' : Nat}
    (hsync : skip' = skip ∨ skip' = 0 ∧
      ∀ m ∈ scanFrom pattern (entries.filter keep) pos 0 text, pos + skip ≤ m.start)
    (hno : ∀ d ∈ scanFrom pattern entries pos skip text, keep d.entry = false →
      ∀ m ∈ scanFrom pattern (entries.filter keep) pos skip' text, ¬ Overlap pattern d m) :
    (scanFrom pattern entries pos skip text).filter (fun m => keep m.entry) =
      scanFrom pattern (entries.filter keep) pos skip' text := by
  induction text generalizing pos skip skip' with
  | nil => rfl
  | cons c text ih =>
    cases skip with
    | succ skip =>
      rcases hsync with rfl | ⟨rfl, hquiet⟩
      · exact ih (Or.inl rfl) hno
      · cases hlongest : longestAt pattern (entries.filter keep) (c :: text) with
        | some e =>
          rw [scanFrom_some hlongest] at hquiet
          have hstart : pos + (skip + 1) ≤ pos := hquiet _ List.mem_cons_self
          omega
        | none =>
          rw [scanFrom_none hlongest] at hquiet hno ⊢
          exact ih (Or.inr ⟨rfl, fun m hm => by have := hquiet m hm; omega⟩) hno
    | zero =>
      obtain rfl : skip' = 0 := by
        rcases hsync with h | h
        · exact h
        · exact h.1
      cases hfull : longestAt pattern entries (c :: text) with
      | none =>
        have hpart := longestAt_filter_none keep hfull
        rw [scanFrom_none hfull, scanFrom_none hpart] at hno
        rw [scanFrom_none hfull, scanFrom_none hpart]
        exact ih (Or.inl rfl) hno
      | some e =>
        cases hkeep : keep e with
        | true =>
          have hpart := longestAt_filter hfull hkeep
          rw [scanFrom_some hfull, scanFrom_some hpart] at hno
          rw [scanFrom_some hfull, scanFrom_some hpart, List.filter_cons_of_pos (by exact hkeep)]
          refine congrArg _ (ih (Or.inl rfl) fun d hd hdrop m hm => ?_)
          exact hno d (List.mem_cons_of_mem _ hd) hdrop m (List.mem_cons_of_mem _ hm)
        | false =>
          -- the dropped match hides nothing, so no kept entry starts inside it
          rw [scanFrom_some hfull] at hno
          have hpos := length_pos_of_longestAt hfull
          have hhead := hno _ List.mem_cons_self hkeep
          cases hpart : longestAt pattern (entries.filter keep) (c :: text) with
          | some e' =>
            have hpos' := length_pos_of_longestAt hpart
            rw [scanFrom_some hpart] at hhead
            refine absurd ?_ (hhead _ List.mem_cons_self)
            exact ⟨Nat.lt_add_of_pos_right hpos', Nat.lt_add_of_pos_right hpos⟩
          | none =>
            rw [scanFrom_none hpart] at hno hhead ⊢
            rw [scanFrom_some hfull, List.filter_cons_of_neg (by simp [hkeep])]
            refine ih (Or.inr ⟨rfl, fun m hm => ?_⟩) fun d hd => hno d (List.mem_cons_of_mem _ hd)
            have hstart := le_start hm
            have hnot := hhead m hm
            simp only [Overlap, Match.stop, not_and, not_lt] at hnot
            have := hnot (by omega)
            omega

/-- The full scan reports a dropped match that overlaps a match of the scan
without the dropped entries. -/
def DroppedOverlap (pattern : E → List α) (entries : List E) (keep : E → Bool) (text : List α) :
    Prop :=
  ∃ d ∈ scan pattern entries text, keep d.entry = false ∧
    ∃ m ∈ scan pattern (entries.filter keep) text, Overlap pattern d m

instance (entries : List E) (keep : E → Bool) (text : List α) :
    Decidable (DroppedOverlap pattern entries keep text) :=
  inferInstanceAs (Decidable (∃ d ∈ scan pattern entries text, keep d.entry = false ∧
    ∃ m ∈ scan pattern (entries.filter keep) text, Overlap pattern d m))

/-- **Without such an overlap, dropping entries after the scan is scanning
without them.** -/
theorem filter_scan {text : List α} (h : ¬ DroppedOverlap pattern entries keep text) :
    (scan pattern entries text).filter (fun m => keep m.entry) =
      scan pattern (entries.filter keep) text :=
  filter_scanFrom (Or.inl rfl) fun d hd hdrop m hm hov => h ⟨d, hd, hdrop, m, hm, hov⟩

/-- **Each such overlap loses a match**: the scan without the dropped entries is
part of the full scan exactly when there is none. -/
theorem lost_iff_overlap {text : List α} :
    (∀ m ∈ scan pattern (entries.filter keep) text, m ∈ scan pattern entries text) ↔
      ¬ DroppedOverlap pattern entries keep text := by
  constructor
  · rintro h ⟨d, hd, hdrop, m, hm, hov⟩
    obtain rfl := eq_of_overlap hd (h m hm) hov
    have hkeep := (List.mem_filter.mp (mem_of_mem_scanFrom hm).1).2
    rw [hdrop] at hkeep
    cases hkeep
  · intro h m hm
    rw [← filter_scan h] at hm
    exact (List.mem_filter.mp hm).1

end Filter

end LeftmostScan
