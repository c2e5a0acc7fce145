import Mathlib.Algebra.BigOperators.Group.Finset.Piecewise
import Mathlib.Algebra.Order.Monoid.Unbundled.Basic
import Mathlib.Data.Finmap
import Mathlib.Data.Fintype.BigOperators

/-!
# Separation

Programs over a heap of blocks, and assertions about parts of a heap.  A program
(`Prog`) allocates, loads, stores and frees; it has no result once it has
touched an address that is not allocated.  The separating conjunction of two
assertions is their product: the assertions are an ordered commutative monoid,
with the empty part as its unit, and the conjunction over a finite set is `Finset.prod`.

`Triple P c Q` says that `c` runs, whatever else is in the heap, and that it
leaves the rest as it is.  The frame is a part of the definition, so the frame
rule holds of every program.
-/

namespace Separation

variable {Block α β : Type}

/-! ## Heaps and programs -/

/-- Some addresses, with the blocks at them. -/
abbrev Fragment (Block : Type) := Finmap fun _ : Nat => Block

/-- A heap; the addresses from `next` on were never allocated. -/
structure Heap (Block : Type) where
  blocks : Fragment Block
  next : Nat
  bounded : ∀ a ∈ blocks, a < next

/-- Nothing allocated yet. -/
def Heap.empty : Heap Block := ⟨∅, 0, fun _ h => absurd h Finmap.notMem_empty⟩

/-- A program; `none` is an access to an address that is not allocated. -/
abbrev Prog (Block α : Type) := StateT (Heap Block) Option α

namespace Prog

def fault : Prog Block α := fun _ => none

/-- Allocates a block and returns its address. -/
def alloc (block : Block) : Prog Block Nat := fun h =>
  some (h.next, {
    blocks := h.blocks.insert h.next block
    next := h.next + 1
    bounded := by
      intro a ha
      rcases Finmap.mem_insert.mp ha with rfl | ha
      · exact Nat.lt_succ_self _
      · exact Nat.lt_succ_of_lt (h.bounded a ha) })

def load (a : Nat) : Prog Block Block := fun h => (h.blocks.lookup a).map fun block => (block, h)

def store (a : Nat) (block : Block) : Prog Block Unit := fun h =>
  if hmem : a ∈ h.blocks then
    some ((), { h with
      blocks := h.blocks.insert a block
      bounded := by
        intro b hb
        rcases Finmap.mem_insert.mp hb with rfl | hb
        · exact h.bounded b hmem
        · exact h.bounded b hb })
  else
    none

def free (a : Nat) : Prog Block Unit := fun h =>
  if a ∈ h.blocks then
    some ((), { h with
      blocks := h.blocks.erase a
      bounded := fun b hb => h.bounded b (Finmap.mem_erase.mp hb).2 })
  else
    none

end Prog

/-! ## Assertions -/

/-- An assertion about a part of a heap. -/
def Assn (Block : Type) := Fragment Block → Prop

namespace Assn

/-- The part is empty. -/
instance : One (Assn Block) := ⟨fun part => part = ∅⟩

/-- The part falls into one for each assertion. -/
instance : Mul (Assn Block) :=
  ⟨fun P Q part => ∃ p q, p.Disjoint q ∧ part = p ∪ q ∧ P p ∧ Q q⟩

/-- Entailment. -/
instance : Preorder (Assn Block) where
  le P Q := ∀ part, P part → Q part
  le_refl _ _ h := h
  le_trans _ _ _ h h' part hpart := h' part (h part hpart)

theorem mul_le {P P' Q Q' : Assn Block} (hP : P ≤ P') (hQ : Q ≤ Q') : P * Q ≤ P' * Q' := by
  rintro part ⟨p, q, hdisjoint, rfl, hp, hq⟩
  exact ⟨p, q, hdisjoint, rfl, hP p hp, hQ q hq⟩

theorem mul_comm_le (P Q : Assn Block) : P * Q ≤ Q * P := by
  rintro part ⟨p, q, hdisjoint, rfl, hp, hq⟩
  exact ⟨q, p, hdisjoint.symm, Finmap.union_comm_of_disjoint hdisjoint, hq, hp⟩

theorem mul_assoc_le (P Q R : Assn Block) : P * Q * R ≤ P * (Q * R) := by
  rintro part ⟨pq, r, hdisjoint, rfl, ⟨p, q, hpq, rfl, hp, hq⟩, hr⟩
  obtain ⟨hpr, hqr⟩ := (Finmap.disjoint_union_left _ _ _).mp hdisjoint
  exact ⟨p, q ∪ r, (Finmap.disjoint_union_right _ _ _).mpr ⟨hpq, hpr⟩, Finmap.union_assoc, hp,
    q, r, hqr, rfl, hq, hr⟩

theorem ext_le {P Q : Assn Block} (h : P ≤ Q) (h' : Q ≤ P) : P = Q :=
  funext fun part => propext ⟨h part, h' part⟩

instance : CommMonoid (Assn Block) where
  mul_assoc P Q R := by
    refine ext_le (mul_assoc_le P Q R) fun part h => ?_
    -- the other direction, through commutativity
    have hswap := mul_comm_le _ _ part h
    have hleft := mul_assoc_le Q R P part (mul_le (le_refl (Q * R)) (le_refl P) part hswap)
    have hright := mul_assoc_le R P Q part (mul_comm_le _ _ part hleft)
    exact mul_comm_le _ _ part hright
  one_mul P := by
    refine ext_le ?_ fun part h => ⟨∅, part, Finmap.disjoint_empty _, Finmap.empty_union.symm,
      rfl, h⟩
    rintro part ⟨p, q, -, rfl, rfl, hq⟩
    rwa [Finmap.empty_union]
  mul_one P := by
    refine ext_le ?_ fun part h => ⟨part, ∅, (Finmap.disjoint_empty _).symm,
      Finmap.union_empty.symm, h, rfl⟩
    rintro part ⟨p, q, -, rfl, hp, rfl⟩
    rwa [Finmap.union_empty]
  mul_comm P Q := ext_le (mul_comm_le P Q) (mul_comm_le Q P)

instance : MulLeftMono (Assn Block) := ⟨fun P _ _ h => mul_le (le_refl P) h⟩

/-- A fact, about no part of the heap. -/
def fact (φ : Prop) : Assn Block := fun part => φ ∧ part = ∅

/-- The part is the block at the address. -/
def pointsTo (a : Nat) (block : Block) : Assn Block := fun part => part = Finmap.singleton a block

/-- The assertion holds for some value. -/
def ex {ι : Type} (P : ι → Assn Block) : Assn Block := fun part => ∃ i, P i part

@[simp] theorem fact_true : (fact True : Assn Block) = 1 :=
  ext_le (fun _ h => h.2) fun _ h => ⟨trivial, h⟩

theorem le_fact_mul {φ : Prop} {P Q : Assn Block} (hφ : φ) (h : P ≤ Q) : P ≤ fact φ * Q := by
  intro part hpart
  exact ⟨∅, part, Finmap.disjoint_empty _, Finmap.empty_union.symm, ⟨hφ, rfl⟩,
    h part hpart⟩

theorem fact_mul {φ : Prop} {P : Assn Block} {part : Fragment Block} :
    (fact φ * P : Assn Block) part ↔ φ ∧ P part := by
  constructor
  · rintro ⟨p, q, -, rfl, ⟨hφ, rfl⟩, hq⟩
    rw [Finmap.empty_union]
    exact ⟨hφ, hq⟩
  · rintro ⟨hφ, h⟩
    exact ⟨∅, part, Finmap.disjoint_empty _, Finmap.empty_union.symm, ⟨hφ, rfl⟩, h⟩

/-- A fact that holds can be stated anywhere. -/
theorem fact_of {φ : Prop} (hφ : φ) : (fact φ : Assn Block) = 1 := by
  rw [eq_true hφ, fact_true]

theorem ex_mul {ι : Type} {P : ι → Assn Block} {Q : Assn Block} :
    ex P * Q = ex fun i => P i * Q := by
  refine ext_le ?_ ?_
  · rintro part ⟨p, q, hdisjoint, rfl, ⟨i, hp⟩, hq⟩
    exact ⟨i, p, q, hdisjoint, rfl, hp, hq⟩
  · rintro part ⟨i, p, q, hdisjoint, rfl, hp, hq⟩
    exact ⟨p, q, hdisjoint, rfl, ⟨i, hp⟩, hq⟩

theorem le_ex {ι : Type} {P : ι → Assn Block} {Q : Assn Block} (i : ι) (h : Q ≤ P i) : Q ≤ ex P :=
  fun part hpart => ⟨i, h part hpart⟩

/-- An address that is owned beside other blocks. -/
theorem pointsTo_mul {a : Nat} {block : Block} {R : Assn Block} {part : Fragment Block} :
    (pointsTo a block * R) part ↔
      ∃ rest, a ∉ rest ∧ part = rest.insert a block ∧ R rest := by
  have hinsert : ∀ rest : Fragment Block,
      Finmap.singleton a block ∪ rest = rest.insert a block := by
    intro rest
    have hsingle : (Finmap.singleton a block : Fragment Block) =
        (∅ : Fragment Block).insert a block := rfl
    rw [hsingle, ← Finmap.insert_union, Finmap.empty_union]
  constructor
  · rintro ⟨p, q, hdisjoint, rfl, rfl, hq⟩
    exact ⟨q, hdisjoint a ((Finmap.mem_singleton a a block).mpr rfl), hinsert q, hq⟩
  · rintro ⟨rest, hnot, rfl, hrest⟩
    refine ⟨_, rest, fun b hb => ?_, (hinsert rest).symm, rfl, hrest⟩
    rwa [(Finmap.mem_singleton b a block).mp hb]

/-- One of the assertions about many things, after a change of this thing. -/
theorem prod_update {ι α β : Type} [Fintype ι] [DecidableEq ι] (P : α → β → Assn Block)
    (f : ι → α) (g : ι → β) (i : ι) (a : α) (b : β) :
    ∏ j, P (Function.update f i a j) (Function.update g i b j) =
      P a b * ∏ j ∈ Finset.univ \ {i}, P (f j) (g j) := by
  rw [← Finset.prod_update_of_mem (Finset.mem_univ i)]
  exact Finset.prod_congr rfl fun j _ => Function.apply_update₂ (fun _ => P) f g i a b j

/-! ### Sizes -/

/-- The part has at most `n` blocks. -/
def atMost (n : Nat) : Assn Block := fun part => part.keys.card ≤ n

section Sizes
variable {P Q : Assn Block} {m n : Nat}

theorem one_le_atMost : (1 : Assn Block) ≤ atMost n := by
  rintro part rfl
  rw [atMost, Finmap.keys_empty]
  exact Nat.zero_le n

theorem pointsTo_le_atMost {a : Nat} {block : Block} : pointsTo a block ≤ atMost 1 := by
  rintro part rfl
  rw [atMost, Finmap.keys_singleton, Finset.card_singleton]

theorem fact_le {φ : Prop} (h : φ → 1 ≤ Q) : fact φ ≤ Q := fun part hpart =>
  h hpart.1 part hpart.2

theorem fact_mul_le {φ : Prop} (h : φ → P ≤ Q) : fact φ * P ≤ Q := fun part hpart =>
  h (fact_mul.mp hpart).1 part (fact_mul.mp hpart).2

theorem ex_le {ι : Type} {P : ι → Assn Block} (h : ∀ i, P i ≤ Q) : ex P ≤ Q :=
  fun part ⟨i, hpart⟩ => h i part hpart

theorem mul_le_atMost (hP : P ≤ atMost m) (hQ : Q ≤ atMost n) : P * Q ≤ atMost (m + n) := by
  rintro part ⟨p, q, -, rfl, hp, hq⟩
  have hkeys : (p ∪ q).keys = p.keys ∪ q.keys := by
    ext a
    rw [Finmap.mem_keys, Finmap.mem_union, Finset.mem_union, Finmap.mem_keys, Finmap.mem_keys]
  calc (p ∪ q).keys.card ≤ p.keys.card + q.keys.card := by
        rw [hkeys]
        exact Finset.card_union_le _ _
    _ ≤ m + n := Nat.add_le_add (hP p hp) (hQ q hq)

theorem prod_le_atMost {ι : Type} [DecidableEq ι] (s : Finset ι) {P : ι → Assn Block}
    {n : ι → Nat} (h : ∀ i, P i ≤ atMost (n i)) : ∏ i ∈ s, P i ≤ atMost (∑ i ∈ s, n i) := by
  induction s using Finset.induction_on with
  | empty => exact one_le_atMost
  | insert i s hi ih =>
    rw [Finset.prod_insert hi, Finset.sum_insert hi]
    exact mul_le_atMost (h i) ih

end Sizes

/-! ### Blocks anywhere -/

/-- These blocks, each at some address. -/
def somewhere (blocks : List Block) : Assn Block :=
  (blocks.map fun block => ex fun a => pointsTo a block).prod

section Somewhere
variable {blocks blocks' : List Block}

theorem pointsTo_le_somewhere {a : Nat} {block : Block} : pointsTo a block ≤ somewhere [block] := by
  rw [somewhere, List.map_singleton, List.prod_singleton]
  exact le_ex a (le_refl _)

theorem somewhere_append :
    somewhere (blocks ++ blocks') = somewhere blocks * somewhere blocks' := by
  rw [somewhere, List.map_append, List.prod_append]
  rfl

theorem somewhere_le_atMost : somewhere blocks ≤ atMost blocks.length := by
  induction blocks with
  | nil => exact one_le_atMost
  | cons block blocks ih =>
    rw [List.length_cons, Nat.add_comm]
    exact mul_le_atMost (ex_le fun _ => pointsTo_le_atMost) ih

/-- These are the blocks of such a part. -/
theorem entries_of_somewhere {part : Fragment Block} (h : somewhere blocks part) :
    part.entries.map Sigma.snd = ↑blocks := by
  induction blocks generalizing part with
  | nil =>
    obtain rfl : part = ∅ := h
    rfl
  | cons block blocks ih =>
    have hcons : ((ex fun a => pointsTo a block) * somewhere blocks : Assn Block) part := h
    rw [ex_mul] at hcons
    obtain ⟨a, hcons⟩ := hcons
    obtain ⟨rest, hnot, rfl, hrest⟩ := pointsTo_mul.mp hcons
    rw [Finmap.entries_insert_of_notMem hnot, Multiset.map_cons, ih hrest, Multiset.cons_coe]

end Somewhere

end Assn

/-! ## Triples -/

open Assn

/-- From a heap with a part `P`, the program runs, and it leaves `Q` in place of this
part and everything else as it is. -/
def Triple (P : Assn Block) (c : Prog Block α) (Q : α → Assn Block) : Prop :=
  ∀ R h, (P * R) h.blocks → ∃ a h', c h = some (a, h') ∧ (Q a * R) h'.blocks

namespace Triple

variable {P P' R : Assn Block} {Q Q' : α → Assn Block} {S : β → Assn Block} {c : Prog Block α}
  {f : α → Prog Block β}

theorem ret (a : α) : Triple (Q a) (pure a) Q := fun _ h hpre => ⟨a, h, rfl, hpre⟩

theorem consequence (hc : Triple P c Q) (hP : P' ≤ P) (hQ : ∀ a, Q a ≤ Q' a) :
    Triple P' c Q' := by
  intro R h hpre
  obtain ⟨a, h', hrun, hpost⟩ := hc R h (mul_le hP (le_refl R) _ hpre)
  exact ⟨a, h', hrun, mul_le (hQ a) (le_refl R) _ hpost⟩

theorem pre (hc : Triple P c Q) (hP : P' ≤ P) : Triple P' c Q :=
  hc.consequence hP fun _ => le_refl _

theorem post (hc : Triple P c Q) (hQ : ∀ a, Q a ≤ Q' a) : Triple P c Q' :=
  hc.consequence (le_refl P) hQ

theorem ret_of {a : α} (h : P ≤ Q a) : Triple P (pure a) Q := (ret a).pre h

theorem frame (hc : Triple P c Q) (R : Assn Block) : Triple (P * R) c fun a => Q a * R := by
  intro R' h hpre
  rw [mul_assoc] at hpre
  obtain ⟨a, h', hrun, hpost⟩ := hc _ h hpre
  rw [← mul_assoc] at hpost
  exact ⟨a, h', hrun, hpost⟩

theorem bind (hc : Triple P c Q) (hf : ∀ a, Triple (Q a) (f a) S) : Triple P (c >>= f) S := by
  intro R h hpre
  obtain ⟨a, h', hrun, hmid⟩ := hc R h hpre
  obtain ⟨b, h'', hrun', hpost⟩ := hf a R h' hmid
  refine ⟨b, h'', ?_, hpost⟩
  show (c h).bind (fun result => f result.1 result.2) = some (b, h'')
  rw [hrun]
  exact hrun'

/-- A step of a longer program works on its own part, and leaves the rest. -/
theorem step (hc : Triple P c Q) (hf : ∀ a, Triple (Q a * R) (f a) S) :
    Triple (P * R) (c >>= f) S :=
  (hc.frame R).bind hf

/-- A step that needs nothing. -/
theorem step_one (hc : Triple 1 c Q) (hf : ∀ a, Triple (Q a * R) (f a) S) :
    Triple R (c >>= f) S := by
  have hstep := hc.step hf
  rwa [one_mul] at hstep

theorem of_fact {φ : Prop} (h : φ → Triple P c Q) : Triple (fact φ * P) c Q := by
  intro R heap hpre
  rw [mul_assoc, fact_mul] at hpre
  exact h hpre.1 R heap hpre.2

theorem of_fact_only {φ : Prop} (h : φ → Triple 1 c Q) : Triple (fact φ) c Q := by
  have hmul := of_fact h
  rwa [mul_one] at hmul

theorem of_ex {ι : Type} {P : ι → Assn Block} (h : ∀ i, Triple (P i) c Q) :
    Triple (ex P) c Q := by
  intro R heap hpre
  rw [ex_mul] at hpre
  obtain ⟨i, hpre⟩ := hpre
  exact h i R heap hpre

/-- A program with a known result comes first. -/
theorem bind_eq {a : α} (hc : Triple P c fun a' => fact (a' = a) * P')
    (hf : Triple P' (f a) S) : Triple P (c >>= f) S :=
  hc.bind fun _ => of_fact fun h => h ▸ hf

/-- A step with a known result. -/
theorem step_eq {a : α} (hc : Triple P c fun a' => fact (a' = a) * P')
    (hf : Triple (P' * R) (f a) S) : Triple (P * R) (c >>= f) S := by
  refine hc.step fun a' => ?_
  rw [mul_assoc]
  exact of_fact fun h => h ▸ hf

/-- A program that returns what is known of it. -/
theorem ret_eq {a : α} : Triple P (pure a) fun a' => fact (a' = a) * P := by
  intro R h hpre
  refine ⟨a, h, rfl, ?_⟩
  rw [mul_assoc]
  exact fact_mul.mpr ⟨rfl, hpre⟩

/-- A run from a heap that is the part. -/
theorem run (hc : Triple P c Q) {h : Heap Block} (hpre : P h.blocks) :
    ∃ a h', c h = some (a, h') ∧ Q a h'.blocks := by
  obtain ⟨a, h', hrun, hpost⟩ := hc 1 h (by rwa [mul_one])
  rw [mul_one] at hpost
  exact ⟨a, h', hrun, hpost⟩

/-! ### The heap operations -/

theorem alloc (block : Block) : Triple 1 (Prog.alloc block) fun a => pointsTo a block := by
  intro R h hpre
  rw [one_mul] at hpre
  refine ⟨h.next, _, rfl, pointsTo_mul.mpr ⟨h.blocks, fun hmem => ?_, rfl, hpre⟩⟩
  exact Nat.lt_irrefl _ (h.bounded _ hmem)

theorem load {a : Nat} {block : Block} :
    Triple (pointsTo a block) (Prog.load a) fun block' =>
      fact (block' = block) * pointsTo a block := by
  intro R h hpre
  refine ⟨block, h, ?_, ?_⟩
  · obtain ⟨rest, -, hblocks, -⟩ := pointsTo_mul.mp hpre
    simp [Prog.load, hblocks]
  · rw [mul_assoc]
    exact fact_mul.mpr ⟨rfl, hpre⟩

theorem store {a : Nat} {block : Block} (block' : Block) :
    Triple (pointsTo a block) (Prog.store a block') fun _ => pointsTo a block' := by
  intro R h hpre
  obtain ⟨rest, hnot, hblocks, hrest⟩ := pointsTo_mul.mp hpre
  have hmem : a ∈ h.blocks := by rw [hblocks]; exact Finmap.mem_insert.mpr (Or.inl rfl)
  refine ⟨(), _, dif_pos hmem, pointsTo_mul.mpr ⟨rest, hnot, ?_, hrest⟩⟩
  show h.blocks.insert a block' = rest.insert a block'
  rw [hblocks, Finmap.insert_insert]

theorem free {a : Nat} {block : Block} :
    Triple (pointsTo a block) (Prog.free a) fun _ => 1 := by
  intro R h hpre
  obtain ⟨rest, hnot, hblocks, hrest⟩ := pointsTo_mul.mp hpre
  have hmem : a ∈ h.blocks := by rw [hblocks]; exact Finmap.mem_insert.mpr (Or.inl rfl)
  refine ⟨(), _, if_pos hmem, ?_⟩
  rw [one_mul]
  show R (h.blocks.erase a)
  have herase : h.blocks.erase a = rest := by
    refine Finmap.ext_lookup fun b => ?_
    by_cases hb : b = a
    · subst hb
      rw [Finmap.lookup_erase, Finmap.lookup_eq_none.mpr hnot]
    · rw [Finmap.lookup_erase_ne hb, hblocks, Finmap.lookup_insert_of_ne _ hb]
  rwa [herase]

end Triple

end Separation
