import Mathlib.Data.List.Infix
import Mathlib.Order.Basic

/-!
# Greedy longest-match segmentation

A dictionary assigns identifiers to words over an arbitrary alphabet.  The
**longest match** of a text is its longest non-empty prefix that is a word
(`IsLongest`).  A greedy run (`Run`) repeatedly strips the longest match, as
long as its identifier is an acceptable one, and records the words and the
identifiers it strips; it is *stuck* (`Stuck`) on a non-empty text without an
acceptable longest match.

A complete run is the same as a greedy decomposition of the text
(`run_complete_iff`), of which there is at most one (`Greedy.unique`), and every
text is consumed completely or leads to a stuck remainder
(`Run.complete_or_stuck`).
-/

namespace LongestMatch

variable {α ι : Type*} (d : List α → Option ι) (ok : ι → Prop)

/-- `w` is the longest non-empty word of the dictionary that `s` begins with. -/
structure IsLongest (s w : List α) : Prop where
  ne_nil : w ≠ []
  word : (d w).isSome
  begins : w <+: s
  longest : ∀ v, (d v).isSome → v <+: s → v.length ≤ w.length

/-- Every word of the list is the longest match of what it begins: the word
itself followed by all later ones. -/
def Greedy (ws : List (List α)) : Prop :=
  ∀ i (h : i < ws.length), IsLongest d (ws.drop i).flatten ws[i]

/-- A greedy run from `s`: it strips the words `ws`, reads the identifiers `ts`
and leaves the text `r`. -/
inductive Run : List α → List (List α) → List ι → List α → Prop
  | stop (s : List α) : Run s [] [] s
  | word {s w r : List α} {t : ι} {ws : List (List α)} {ts : List ι} :
      IsLongest d (w ++ s) w → d w = some t → ok t → Run s ws ts r →
        Run (w ++ s) (w :: ws) (t :: ts) r

/-- Nothing acceptable can be stripped from a text that is not yet consumed. -/
def Stuck (r : List α) : Prop :=
  r ≠ [] ∧ ∀ w t, IsLongest d r w → d w = some t → ¬ ok t

variable {d ok}

/-! ## The longest match -/

theorem IsLongest.unique {s v w : List α} (hv : IsLongest d s v) (hw : IsLongest d s w) :
    v = w := by
  have hlen : v.length = w.length :=
    Nat.le_antisymm (hw.longest v hv.word hv.begins) (hv.longest w hw.word hw.begins)
  exact (List.prefix_of_prefix_length_le hv.begins hw.begins hlen.le).eq_of_length hlen

/-- A word is its own longest match. -/
theorem isLongest_self {w : List α} (hne : w ≠ []) (hw : (d w).isSome) : IsLongest d w w where
  ne_nil := hne
  word := hw
  begins := List.prefix_rfl
  longest _ _ hv := hv.length_le

/-- A text that begins with some non-empty word has a longest match: the
lengths of such words are bounded by the length of the text. -/
theorem exists_isLongest {s v : List α} (hne : v ≠ []) (hv : (d v).isSome) (hpre : v <+: s) :
    ∃ w, IsLongest d s w := by
  induction hk : s.length - v.length using Nat.strongRecOn generalizing v with
  | ind k ih =>
    by_cases hlong : ∀ u, (d u).isSome → u <+: s → u.length ≤ v.length
    · exact ⟨v, hne, hv, hpre, hlong⟩
    · push Not at hlong
      obtain ⟨u, hu, hus, hlt⟩ := hlong
      have hune : u ≠ [] := List.ne_nil_of_length_pos (by omega)
      have hle : u.length ≤ s.length := hus.length_le
      exact ih (s.length - u.length) (by omega) hune hu hus rfl

/-- A text without an acceptable longest match begins with no word at all, or
its longest match has an unacceptable identifier. -/
theorem stuck_iff {r : List α} :
    Stuck d ok r ↔ r ≠ [] ∧ ((∀ w, w ≠ [] → (d w).isSome → ¬ w <+: r) ∨
      ∃ w t, IsLongest d r w ∧ d w = some t ∧ ¬ ok t) := by
  refine and_congr_right fun _ => ⟨fun h => ?_, ?_⟩
  · by_cases hex : ∃ w, IsLongest d r w
    · obtain ⟨w, hw⟩ := hex
      obtain ⟨t, ht⟩ := Option.isSome_iff_exists.mp hw.word
      exact Or.inr ⟨w, t, hw, ht, h w t hw ht⟩
    · exact Or.inl fun w hne hs hpre => hex (exists_isLongest hne hs hpre)
  · rintro (hnone | ⟨w, t, hw, ht, hbad⟩) v u hv hu
    · exact absurd hv.begins (hnone v hv.ne_nil hv.word)
    · obtain rfl := hv.unique hw
      obtain rfl := Option.some.inj (hu.symm.trans ht)
      exact hbad

/-- No word is longer than the bound. -/
def Bounded (d : List α → Option ι) (bound : Nat) : Prop :=
  ∀ w, (d w).isSome → w.length ≤ bound

/-- **The longest match is local**: it looks no further than the longest word. -/
theorem Bounded.isLongest_congr {bound : Nat} (hbound : Bounded d bound) {s s' : List α}
    (h : s.take bound = s'.take bound) {w : List α} : IsLongest d s w ↔ IsLongest d s' w := by
  have hbegins : ∀ v, (d v).isSome → (v <+: s ↔ v <+: s') := by
    intro v hv
    have hle := hbound v hv
    constructor
    · intro hs
      exact (List.prefix_take_iff.mp (h ▸ List.prefix_take_iff.mpr ⟨hs, hle⟩)).1
    · intro hs'
      exact (List.prefix_take_iff.mp (h.symm ▸ List.prefix_take_iff.mpr ⟨hs', hle⟩)).1
  constructor
  · intro hw
    exact ⟨hw.ne_nil, hw.word, (hbegins w hw.word).mp hw.begins,
      fun v hv hs' => hw.longest v hv ((hbegins v hv).mpr hs')⟩
  · intro hw
    exact ⟨hw.ne_nil, hw.word, (hbegins w hw.word).mpr hw.begins,
      fun v hv hs => hw.longest v hv ((hbegins v hv).mp hs)⟩

/-! ## Greedy word lists -/

@[simp] theorem greedy_nil : Greedy d [] := fun _ h => absurd h (Nat.not_lt_zero _)

theorem greedy_cons {w : List α} {ws : List (List α)} :
    Greedy d (w :: ws) ↔ IsLongest d (w ++ ws.flatten) w ∧ Greedy d ws := by
  constructor
  · intro h
    exact ⟨h 0 (Nat.zero_lt_succ _), fun i hi => h (i + 1) (Nat.succ_lt_succ hi)⟩
  · rintro ⟨hw, hws⟩ i hi
    cases i with
    | zero => exact hw
    | succ i => exact hws i (Nat.lt_of_succ_lt_succ hi)

/-- A text has at most one greedy decomposition. -/
theorem Greedy.unique {vs ws : List (List α)} (hv : Greedy d vs) (hw : Greedy d ws)
    (heq : vs.flatten = ws.flatten) : vs = ws := by
  induction vs generalizing ws with
  | nil =>
    cases ws with
    | nil => rfl
    | cons w ws =>
      have h := (greedy_cons.mp hw).1
      exact absurd (List.append_eq_nil_iff.mp heq.symm).1 h.ne_nil
  | cons v vs ih =>
    obtain ⟨hlv, hvs⟩ := greedy_cons.mp hv
    cases ws with
    | nil => exact absurd (List.append_eq_nil_iff.mp heq).1 hlv.ne_nil
    | cons w ws =>
      obtain ⟨hlw, hws⟩ := greedy_cons.mp hw
      simp only [List.flatten_cons] at heq
      have hvw : v = w := hlv.unique (heq ▸ hlw)
      subst hvw
      rw [ih hvs hws (List.append_cancel_left heq)]

/-! ## Greedy runs -/

theorem Run.text_eq {s r : List α} {ws : List (List α)} {ts : List ι}
    (h : Run d ok s ws ts r) : s = ws.flatten ++ r := by
  induction h with
  | stop s => rfl
  | word _ _ _ _ ih => rw [List.flatten_cons, List.append_assoc, ← ih]

theorem Run.ids {s r : List α} {ws : List (List α)} {ts : List ι}
    (h : Run d ok s ws ts r) : ws.map d = ts.map some ∧ ∀ t ∈ ts, ok t := by
  induction h with
  | stop s => simp
  | word _ ht hok _ ih =>
    refine ⟨by simp [ht, ih.1], fun u hu => ?_⟩
    rcases List.mem_cons.mp hu with rfl | hu
    · exact hok
    · exact ih.2 u hu

/-- A word is consumed in one step. -/
theorem Run.single {w : List α} {t : ι} (hne : w ≠ []) (ht : d w = some t) (hok : ok t) :
    Run d ok w [w] [t] [] := by
  have hw : IsLongest d (w ++ []) w := by
    rw [List.append_nil]
    exact isLongest_self hne (by rw [ht]; rfl)
  have hrun : Run d ok (w ++ []) [w] [t] [] := .word hw ht hok (.stop [])
  rwa [List.append_nil] at hrun

/-- A complete run is a greedy decomposition whose identifiers are acceptable. -/
theorem run_complete_iff {s : List α} {ts : List ι} {ws : List (List α)} :
    Run d ok s ws ts [] ↔
      s = ws.flatten ∧ Greedy d ws ∧ ws.map d = ts.map some ∧ ∀ t ∈ ts, ok t := by
  constructor
  · intro h
    refine ⟨by simpa using h.text_eq, ?_, h.ids⟩
    generalize hr : ([] : List α) = r at h
    induction h with
    | stop s => exact greedy_nil
    | word hw _ _ hrun ih =>
      subst hr
      have hs := hrun.text_eq
      rw [List.append_nil] at hs
      exact greedy_cons.mpr ⟨hs ▸ hw, ih rfl⟩
  · rintro ⟨rfl, hg, hids, hok⟩
    induction ws generalizing ts with
    | nil =>
      cases ts with
      | nil => exact Run.stop _
      | cons t ts => simp at hids
    | cons w ws ih =>
      cases ts with
      | nil => simp at hids
      | cons t ts =>
        simp only [List.map_cons, List.cons.injEq] at hids
        obtain ⟨hw, hws⟩ := greedy_cons.mp hg
        exact Run.word hw hids.1 (hok t List.mem_cons_self)
          (ih hws hids.2 fun u hu => hok u (List.mem_cons_of_mem _ hu))

/-- **Progress.**  Every text is consumed completely or leads to a stuck
remainder: each stripped word is non-empty. -/
theorem Run.complete_or_stuck (d : List α → Option ι) (ok : ι → Prop) (s : List α) :
    (∃ ws ts, Run d ok s ws ts []) ∨ ∃ ws ts r, Run d ok s ws ts r ∧ Stuck d ok r := by
  induction hn : s.length using Nat.strongRecOn generalizing s with
  | ind n ih =>
    by_cases hnil : s = []
    · exact Or.inl ⟨[], [], hnil ▸ Run.stop _⟩
    · by_cases hstuck : Stuck d ok s
      · exact Or.inr ⟨[], [], s, Run.stop s, hstuck⟩
      · -- not stuck: there is an acceptable longest match, and it is not empty
        simp only [Stuck, not_and, not_forall, not_not] at hstuck
        obtain ⟨w, t, hw, ht, hok⟩ := hstuck hnil
        obtain ⟨s', rfl⟩ := hw.begins
        have hpos := List.length_pos_of_ne_nil hw.ne_nil
        rcases ih s'.length (by rw [← hn, List.length_append]; omega) s' rfl with
          ⟨ws, ts, hrun⟩ | ⟨ws, ts, r, hrun, hr⟩
        · exact Or.inl ⟨w :: ws, t :: ts, Run.word hw ht hok hrun⟩
        · exact Or.inr ⟨w :: ws, t :: ts, r, Run.word hw ht hok hrun, hr⟩

end LongestMatch
