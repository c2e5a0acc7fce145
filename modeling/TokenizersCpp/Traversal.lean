import Mathlib.Data.List.Forall2
import Mathlib.Logic.Relation

/-!
# Traversals that may stop

`List.mapM` in `Except`.  A traversal returns exactly when the call on every
element returns, and then it returns the results in order (`mapM_eq_ok`); when
it stops, it stops with the error of one of its elements (`mapM_eq_error`).

`Exact` is a specification of a computation that says when it returns, what, and
of which kind its error is otherwise; exact computations compose.
-/

namespace Traversal

variable {α β γ ε : Type} {f : α → Except ε β}

theorem ok_bind {a : α} : ((.ok a : Except ε α) >>= f) = f a := rfl

theorem bind_eq_ok {x : Except ε α} {b : β} :
    (x >>= f) = .ok b ↔ ∃ a, x = .ok a ∧ f a = .ok b := by
  cases x with
  | error e => exact ⟨nofun, nofun⟩
  | ok a => exact ⟨fun h => ⟨a, rfl, h⟩, fun ⟨_, ha, hb⟩ => Except.ok.inj ha ▸ hb⟩

/-- A computation goes on with its own results only. -/
theorem bind_congr_ok {x : Except ε α} {g : α → Except ε β} (h : ∀ a, x = .ok a → f a = g a) :
    (x >>= f) = (x >>= g) := by
  cases x with
  | error e => rfl
  | ok a => exact h a rfl

theorem cons_ok {a : α} {l : List α} {b : β} (h : f a = .ok b) :
    (a :: l).mapM f = (l.mapM f).map (b :: ·) := by
  rw [List.mapM_cons, h]
  cases l.mapM f <;> rfl

theorem cons_error {a : α} {l : List α} {e : ε} (h : f a = .error e) :
    (a :: l).mapM f = .error e := by
  rw [List.mapM_cons, h]
  rfl

/-- **A traversal returns the results of its elements, in order.** -/
theorem mapM_eq_ok {l : List α} {out : List β} :
    l.mapM f = .ok out ↔ List.Forall₂ (fun a b => f a = .ok b) l out := by
  induction l generalizing out with
  | nil =>
    rw [List.forall₂_nil_left_iff]
    exact ⟨fun h => (Except.ok.inj h).symm, fun h => h ▸ rfl⟩
  | cons a l ih =>
    rw [List.forall₂_cons_left_iff]
    cases ha : f a with
    | error e =>
      rw [cons_error ha]
      constructor
      · intro h
        cases h
      · rintro ⟨b, u, h, -⟩
        cases h
    | ok b =>
      rw [cons_ok ha]
      constructor
      · intro h
        cases hl : l.mapM f with
        | error e =>
          rw [hl] at h
          cases h
        | ok u =>
          rw [hl] at h
          exact ⟨b, u, rfl, ih.mp hl, (Except.ok.inj h).symm⟩
      · rintro ⟨b', u, hb, hu, rfl⟩
        obtain rfl := Except.ok.inj hb
        rw [ih.mpr hu]
        rfl

theorem mapM_congr {g : α → Except ε β} {l : List α} (h : ∀ a ∈ l, f a = g a) :
    l.mapM f = l.mapM g := by
  induction l with
  | nil => rfl
  | cons a l ih =>
    obtain ⟨ha, hl⟩ := List.forall_mem_cons.mp h
    rw [List.mapM_cons, List.mapM_cons, ha, ih hl]

/-- A traversal that stops reports the error of one of its elements. -/
theorem mapM_eq_error {l : List α} {e : ε} (h : l.mapM f = .error e) :
    ∃ a ∈ l, f a = .error e := by
  induction l with
  | nil => cases h
  | cons a l ih =>
    cases ha : f a with
    | error e' =>
      rw [cons_error ha] at h
      obtain rfl := Except.error.inj h
      exact ⟨a, List.mem_cons_self, ha⟩
    | ok b =>
      rw [cons_ok ha] at h
      cases hl : l.mapM f with
      | ok u =>
        rw [hl] at h
        cases h
      | error e' =>
        rw [hl] at h
        obtain rfl := Except.error.inj h
        obtain ⟨a', ha', he⟩ := ih hl
        exact ⟨a', List.mem_cons_of_mem a ha', he⟩

/-- A relation is total on a list exactly when it relates the list to some other. -/
theorem exists_forall₂ {R : α → β → Prop} {l : List α} :
    (∃ out, List.Forall₂ R l out) ↔ ∀ a ∈ l, ∃ b, R a b := by
  constructor
  · rintro ⟨out, h⟩
    induction h with
    | nil => exact fun a ha => absurd ha List.not_mem_nil
    | cons hab _ ih => exact List.forall_mem_cons.mpr ⟨⟨_, hab⟩, ih⟩
  · intro h
    induction l with
    | nil => exact ⟨[], .nil⟩
    | cons a l ih =>
      obtain ⟨⟨b, hab⟩, hl⟩ := List.forall_mem_cons.mp h
      obtain ⟨out, hout⟩ := ih hl
      exact ⟨b :: out, .cons hab hout⟩

/-- A traversal returns exactly when the call on every element returns. -/
theorem mapM_returns {l : List α} :
    (∃ out, l.mapM f = .ok out) ↔ ∀ a ∈ l, ∃ b, f a = .ok b := by
  simp only [mapM_eq_ok, exists_forall₂]

/-- A traversal with an element that fails stops at one that fails. -/
theorem mapM_stops {l : List α} {a : α} {e : ε} (ha : a ∈ l) (h : f a = .error e) :
    ∃ a' ∈ l, ∃ e', f a' = .error e' ∧ l.mapM f = .error e' := by
  cases hl : l.mapM f with
  | ok out =>
    obtain ⟨b, hb⟩ := mapM_returns.mp ⟨out, hl⟩ a ha
    rw [h] at hb
    cases hb
  | error e' =>
    obtain ⟨a', ha', he'⟩ := mapM_eq_error hl
    exact ⟨a', ha', e', he', rfl⟩

/-- The two parts of a list are traversed one after the other. -/
theorem mapM_append_eq_ok {l l' : List α} {out : List β} :
    (l ++ l').mapM f = .ok out ↔
      ∃ own, l.mapM f = .ok own ∧ ∃ own', l'.mapM f = .ok own' ∧ out = own ++ own' := by
  rw [List.mapM_append, bind_eq_ok]
  refine exists_congr fun own => and_congr_right fun _ => ?_
  rw [bind_eq_ok]
  refine exists_congr fun own' => and_congr_right fun _ => ?_
  exact ⟨fun h => (Except.ok.inj h).symm, fun h => congrArg Except.ok h.symm⟩

theorem mapM_replicate_ok {a : α} {b : β} (h : f a = .ok b) (n : Nat) :
    (List.replicate n a).mapM f = .ok (List.replicate n b) := by
  induction n with
  | zero => rfl
  | succ n ih =>
    rw [List.replicate_succ, cons_ok h, ih]
    rfl

/-- A copy that fails stops the traversal, unless there is no copy. -/
theorem mapM_replicate_eq_ok {a : α} {n : Nat} (hn : n ≠ 0) {out : List β} :
    (List.replicate n a).mapM f = .ok out ↔ ∃ b, f a = .ok b ∧ out = List.replicate n b := by
  constructor
  · intro h
    obtain ⟨b, hb⟩ := mapM_returns.mp ⟨out, h⟩ a (List.mem_replicate.mpr ⟨hn, rfl⟩)
    rw [mapM_replicate_ok hb] at h
    exact ⟨b, hb, (Except.ok.inj h).symm⟩
  · rintro ⟨b, hb, rfl⟩
    exact mapM_replicate_ok hb n

theorem length_of_mapM {l : List α} {out : List β} (h : l.mapM f = .ok out) :
    out.length = l.length :=
  (mapM_eq_ok.mp h).length_eq.symm

/-- Pointwise composition of relations between lists. -/
theorem forall₂_comp {R : α → β → Prop} {S : β → γ → Prop} {l : List α} {out : List γ} :
    List.Forall₂ (Relation.Comp R S) l out ↔
      ∃ mid, List.Forall₂ R l mid ∧ List.Forall₂ S mid out := by
  constructor
  · intro h
    induction h with
    | nil => exact ⟨[], .nil, .nil⟩
    | cons hac _ ih =>
      obtain ⟨b, hab, hbc⟩ := hac
      obtain ⟨mid, hl, hr⟩ := ih
      exact ⟨b :: mid, .cons hab hl, .cons hbc hr⟩
  · rintro ⟨mid, hl, hr⟩
    induction hl generalizing out with
    | nil =>
      rw [List.forall₂_nil_left_iff.mp hr]
      exact .nil
    | cons hab _ ih =>
      obtain ⟨c, u, hbc, hu, rfl⟩ := List.forall₂_cons_left_iff.mp hr
      exact .cons ⟨_, hab, hbc⟩ (ih hu)

theorem forall₂_congr_left {R S : α → β → Prop} {l : List α} {out : List β}
    (h : ∀ a ∈ l, ∀ b, R a b ↔ S a b) : List.Forall₂ R l out ↔ List.Forall₂ S l out := by
  induction l generalizing out with
  | nil => rw [List.forall₂_nil_left_iff, List.forall₂_nil_left_iff]
  | cons a l ih =>
    obtain ⟨ha, hl⟩ := List.forall_mem_cons.mp h
    simp only [List.forall₂_cons_left_iff, ha, ih hl]

/-- Two relations between the same lists. -/
theorem forall₂_and {R S : α → β → Prop} {l : List α} {out : List β} :
    List.Forall₂ (fun a b => R a b ∧ S a b) l out ↔
      List.Forall₂ R l out ∧ List.Forall₂ S l out := by
  constructor
  · exact fun h => ⟨h.imp fun _ _ h => h.1, h.imp fun _ _ h => h.2⟩
  · rintro ⟨hR, hS⟩
    induction hR with
    | nil => exact .nil
    | cons hab _ ih =>
      obtain ⟨hab', hS⟩ := List.forall₂_cons.mp hS
      exact .cons ⟨hab, hab'⟩ (ih hS)

/-- A relation between lists, cut where the first list is. -/
theorem forall₂_flatten {R : α → β → Prop} {ls : List (List α)} {out : List β} :
    List.Forall₂ R ls.flatten out ↔
      ∃ outs, List.Forall₂ (List.Forall₂ R) ls outs ∧ outs.flatten = out := by
  constructor
  · intro h
    induction ls generalizing out with
    | nil => exact ⟨[], .nil, (List.forall₂_nil_left_iff.mp h).symm⟩
    | cons l ls ih =>
      rw [List.flatten_cons, ← List.take_append_drop l.length out] at h
      have hlength : (out.take l.length).length = l.length := by
        have := h.length_eq
        rw [List.take_append_drop, List.length_append] at this
        rw [List.length_take]
        omega
      have hl := List.forall₂_take l.length h
      have hls := List.forall₂_drop l.length h
      rw [List.take_left, List.take_left' hlength] at hl
      rw [List.drop_left, List.drop_left' hlength] at hls
      obtain ⟨outs, houts, hflat⟩ := ih hls
      exact ⟨out.take l.length :: outs, .cons hl houts, by
        rw [List.flatten_cons, hflat, List.take_append_drop]⟩
  · rintro ⟨outs, h, rfl⟩
    exact List.rel_flatten h

theorem exists_left_of_mem {R : α → β → Prop} {l : List α} {out : List β}
    (h : List.Forall₂ R l out) {b : β} (hb : b ∈ out) : ∃ a ∈ l, R a b := by
  induction h with
  | nil => cases hb
  | cons hab _ ih =>
    rcases List.mem_cons.mp hb with rfl | hb
    · exact ⟨_, List.mem_cons_self, hab⟩
    · obtain ⟨a, ha, hR⟩ := ih hb
      exact ⟨a, List.mem_cons_of_mem _ ha, hR⟩

/-! ## Exact specifications -/

/-- The computation returns exactly the values that `spec` describes, and fails with
an error of the kind `refused` when there is none. -/
structure Exact (refused : ε → Prop) (spec : α → Prop) (result : Except ε α) : Prop where
  ok_iff : ∀ a, result = .ok a ↔ spec a
  refuses : (∀ a, ¬ spec a) → ∃ e, result = .error e ∧ refused e

namespace Exact

variable {refused : ε → Prop} {spec : α → Prop} {result : Except ε α}

theorem ok (a : α) : Exact refused (fun b => b = a) (.ok a) where
  ok_iff _ := ⟨fun h => (Except.ok.inj h).symm, fun h => congrArg _ h.symm⟩
  refuses h := absurd rfl (h a)

theorem error {e : ε} (hnone : ∀ a, ¬ spec a) (he : refused e) :
    Exact refused spec (.error e) where
  ok_iff a := ⟨nofun, fun h => absurd h (hnone a)⟩
  refuses _ := ⟨e, rfl, he⟩

theorem congr {spec' : α → Prop} (h : Exact refused spec result) (hspec : ∀ a, spec a ↔ spec' a) :
    Exact refused spec' result where
  ok_iff a := (h.ok_iff a).trans (hspec a)
  refuses hnone := h.refuses fun a ha => hnone a ((hspec a).mp ha)

/-- It returns, or there is nothing to return and it fails. -/
theorem cases (h : Exact refused spec result) :
    (∃ a, result = .ok a ∧ spec a) ∨ ∃ e, result = .error e ∧ refused e ∧ ∀ a, ¬ spec a := by
  cases hresult : result with
  | ok a => exact Or.inl ⟨a, rfl, (h.ok_iff a).mp hresult⟩
  | error e =>
    have hnone : ∀ a, ¬ spec a := by
      intro a ha
      have hok := (h.ok_iff a).mpr ha
      rw [hresult] at hok
      cases hok
    obtain ⟨e', he', hrefused⟩ := h.refuses hnone
    obtain rfl := Except.error.inj (hresult.symm.trans he')
    exact Or.inr ⟨e, rfl, hrefused, hnone⟩

/-- Exact computations compose. -/
theorem bind {spec' : α → β → Prop} (h : Exact refused spec result)
    (hf : ∀ a, spec a → Exact refused (spec' a) (f a)) :
    Exact refused (fun b => ∃ a, spec a ∧ spec' a b) (result >>= f) where
  ok_iff b := by
    rw [bind_eq_ok]
    exact exists_congr fun a => by
      rw [h.ok_iff a]
      exact and_congr_right fun ha => (hf a ha).ok_iff b
  refuses hnone := by
    rcases h.cases with ⟨a, rfl, ha⟩ | ⟨e, rfl, he, -⟩
    · exact (hf a ha).refuses fun b hb => hnone b ⟨a, ha, hb⟩
    · exact ⟨e, rfl, he⟩

/-- A traversal of exact calls is exact. -/
theorem mapM {R : α → β → Prop} {l : List α} (hf : ∀ a, Exact refused (R a) (f a)) :
    Exact refused (List.Forall₂ R l) (l.mapM f) where
  ok_iff out := by
    simp only [mapM_eq_ok, (hf _).ok_iff]
  refuses hnone := by
    cases hmap : l.mapM f with
    | ok out =>
      simp only [mapM_eq_ok, (hf _).ok_iff] at hmap
      exact absurd hmap (hnone out)
    | error e =>
      obtain ⟨a, -, ha⟩ := mapM_eq_error hmap
      refine ⟨e, rfl, ?_⟩
      rcases (hf a).cases with ⟨b, hb, -⟩ | ⟨e', he', hrefused, -⟩
      · rw [ha] at hb
        cases hb
      · obtain rfl := Except.error.inj (ha.symm.trans he')
        exact hrefused

end Exact

end Traversal
