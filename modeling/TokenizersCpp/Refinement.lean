import Mathlib.Algebra.Order.BigOperators.Group.Finset
import TokenizersCpp.Separation

/-!
# Refinement of one heap by another

Two programs over two heaps.  The one above allocates resources, and names them by their
addresses; the one below keeps each resource at some **place** of its own heap, in the form
that a `Layout` gives it.  An address is never used again, so the places make up a list
that only grows, and what is known of a place stays known.

`Refines` says that the program below runs where the one above does, that the results
are related, and that memory below is what the layout says of the heap above, and nothing
else.  Its rules take the two programs step by step; the step below is a `Triple`
about one resource.
-/

namespace Separation

open Assn

variable {A Block Place α β γ δ : Type}

namespace Prog

/-- Loads a block of one kind; a block of another kind is a fault, too. -/
def loadAs (kind : A → Option β) (a : Nat) : Prog A β := do
  match kind (← load a) with
  | some b => return b
  | none => fault

/-- Frees such a block. -/
def freeAs (kind : A → Option β) (a : Nat) : Prog A Unit := do
  let _ ← loadAs kind a
  free a

theorem bind_eq_some {c : Prog A α} {f : α → Prog A β} {h h'' : Heap A} {b : β} :
    (c >>= f) h = some (b, h'') ↔ ∃ a h', c h = some (a, h') ∧ f a h' = some (b, h'') := by
  show (c h).bind (fun result => f result.1 result.2) = _ ↔ _
  rw [Option.bind_eq_some_iff]
  exact Prod.exists

theorem load_eq_some {a : Nat} {r : A} {h h' : Heap A} :
    load a h = some (r, h') ↔ h.blocks.lookup a = some r ∧ h' = h := by
  rw [load, Option.map_eq_some_iff]
  constructor
  · rintro ⟨r', hr, heq⟩
    obtain ⟨rfl, rfl⟩ := Prod.mk.inj heq
    exact ⟨hr, rfl⟩
  · rintro ⟨hr, rfl⟩
    exact ⟨r, hr, rfl⟩

theorem loadAs_eq_some {kind : A → Option β} {a : Nat} {b : β} {h h' : Heap A} :
    loadAs kind a h = some (b, h') ↔
      ∃ r, h.blocks.lookup a = some r ∧ kind r = some b ∧ h' = h := by
  rw [loadAs, bind_eq_some]
  constructor
  · rintro ⟨r, h₁, hload, hrest⟩
    obtain ⟨hr, rfl⟩ := load_eq_some.mp hload
    cases hkind : kind r with
    | none => rw [hkind] at hrest; cases hrest
    | some b' =>
      rw [hkind] at hrest
      obtain ⟨rfl, rfl⟩ := Prod.mk.inj (Option.some.inj hrest)
      exact ⟨r, hr, hkind, rfl⟩
  · rintro ⟨r, hr, hkind, rfl⟩
    refine ⟨r, h', load_eq_some.mpr ⟨hr, rfl⟩, ?_⟩
    rw [hkind]
    rfl

theorem store_eq_some {a : Nat} {r : A} {h h' : Heap A} :
    store a r h = some ((), h') ↔
      a ∈ h.blocks ∧ h'.blocks = h.blocks.insert a r ∧ h'.next = h.next := by
  by_cases hmem : a ∈ h.blocks
  · rw [store, dif_pos hmem]
    constructor
    · intro heq
      obtain ⟨-, rfl⟩ := Prod.mk.inj (Option.some.inj heq)
      exact ⟨hmem, rfl, rfl⟩
    · rintro ⟨-, hblocks, hnext⟩
      obtain ⟨blocks, next, bounded⟩ := h'
      simp only at hblocks hnext
      subst hblocks hnext
      rfl
  · rw [store, dif_neg hmem]
    exact iff_of_false nofun fun h => hmem h.1

theorem free_eq_some {a : Nat} {h h' : Heap A} :
    free a h = some ((), h') ↔
      a ∈ h.blocks ∧ h'.blocks = h.blocks.erase a ∧ h'.next = h.next := by
  by_cases hmem : a ∈ h.blocks
  · rw [free, if_pos hmem]
    constructor
    · intro heq
      obtain ⟨-, rfl⟩ := Prod.mk.inj (Option.some.inj heq)
      exact ⟨hmem, rfl, rfl⟩
    · rintro ⟨-, hblocks, hnext⟩
      obtain ⟨blocks, next, bounded⟩ := h'
      simp only at hblocks hnext
      subst hblocks hnext
      rfl
  · rw [free, if_neg hmem]
    exact iff_of_false nofun fun h => hmem h.1

theorem freeAs_eq_some {kind : A → Option β} {a : Nat} {h h' : Heap A} :
    freeAs kind a h = some ((), h') ↔
      ∃ r b, h.blocks.lookup a = some r ∧ kind r = some b ∧
        h'.blocks = h.blocks.erase a ∧ h'.next = h.next := by
  rw [freeAs, bind_eq_some]
  constructor
  · rintro ⟨b, h₁, hload, hfree⟩
    obtain ⟨r, hr, hkind, rfl⟩ := loadAs_eq_some.mp hload
    exact ⟨r, b, hr, hkind, (free_eq_some.mp hfree).2⟩
  · rintro ⟨r, b, hr, hkind, hblocks⟩
    have hmem : a ∈ h.blocks := Finmap.mem_of_lookup_eq_some hr
    exact ⟨b, h, loadAs_eq_some.mpr ⟨r, hr, hkind, rfl⟩, free_eq_some.mpr ⟨hmem, hblocks⟩⟩

/-- The program has a result, and this is true of it. -/
def Goes (c : Prog A α) (h : Heap A) (Q : α → Heap A → Prop) : Prop :=
  ∃ a h', c h = some (a, h') ∧ Q a h'

section Goes

variable {c : Prog A α} {f : α → Prog A β} {h : Heap A} {Q : α → Heap A → Prop}
  {R : β → Heap A → Prop} {a : Nat} {r : A} {b : β}

theorem Goes.ret {x : α} (hx : Q x h) : Goes (pure x) h Q := ⟨x, h, rfl, hx⟩

theorem Goes.bind (hc : Goes c h Q) (hf : ∀ x h', Q x h' → Goes (f x) h' R) :
    Goes (c >>= f) h R := by
  obtain ⟨x, h', hrun, hx⟩ := hc
  obtain ⟨y, h'', hrun', hy⟩ := hf x h' hx
  exact ⟨y, h'', bind_eq_some.mpr ⟨x, h', hrun, hrun'⟩, hy⟩

theorem Goes.post {Q' : α → Heap A → Prop} (hc : Goes c h Q) (hQ : ∀ x h', Q x h' → Q' x h') :
    Goes c h Q' := by
  obtain ⟨x, h', hrun, hx⟩ := hc
  exact ⟨x, h', hrun, hQ x h' hx⟩

theorem Goes.alloc : Goes (alloc r) h fun a h' =>
    a = h.next ∧ h'.next = h.next + 1 ∧ h'.blocks = h.blocks.insert h.next r :=
  ⟨h.next, _, rfl, rfl, rfl, rfl⟩

theorem Goes.loadAs (kind : A → Option β) (hr : h.blocks.lookup a = some r)
    (hkind : kind r = some b) :
    Goes (loadAs kind a) h fun b' h' => b' = b ∧ h' = h :=
  ⟨b, h, loadAs_eq_some.mpr ⟨r, hr, hkind, rfl⟩, rfl, rfl⟩

theorem Goes.freeAs (kind : A → Option β) (hr : h.blocks.lookup a = some r)
    (hkind : kind r = some b) :
    Goes (freeAs kind a) h fun _ h' => h'.blocks = h.blocks.erase a := by
  refine (Goes.loadAs kind hr hkind).bind fun _ h' ⟨_, hh⟩ => ?_
  subst hh
  exact ⟨(), _, if_pos (Finmap.mem_of_lookup_eq_some hr), rfl⟩

theorem Goes.store {r' : A} (hr : h.blocks.lookup a = some r) :
    Goes (store a r') h fun _ h' => h'.blocks = h.blocks.insert a r' :=
  ⟨(), _, dif_pos (Finmap.mem_of_lookup_eq_some hr), rfl⟩

end Goes

end Prog

/-- In which form a resource lies at its place, given the places of all resources. -/
structure Layout (A Block Place : Type) where
  At : List Place → Place → A → Assn Block
  mono {places places' : List Place} (h : places <+: places') (p : Place) (r : A) :
    At places p r ≤ At places' p r

namespace Layout

variable (L : Layout A Block Place)

/-- The resource at an address lies at its place. -/
def CellAt (places : List Place) (a : Nat) (r : A) : Assn Block :=
  ex fun p => fact (places[a]? = some p) * L.At places p r

/-- So do all resources of a part of the heap. -/
def PartAt (places : List Place) (part : Fragment A) : Assn Block :=
  ∏ a ∈ part.keys, (part.lookup a).elim 1 (L.CellAt places a)

/-- So do all resources, and every address has a place. -/
def HeapAt (places : List Place) (h : Heap A) : Assn Block :=
  fact (places.length = h.next) * L.PartAt places h.blocks

variable {L} {places places' : List Place} {part : Fragment A} {a : Nat} {r : A} {p : Place}

theorem getElem?_mono (h : places <+: places') (hp : places[a]? = some p) :
    places'[a]? = some p := by
  obtain ⟨rest, rfl⟩ := h
  rw [List.getElem?_append_left (List.getElem?_eq_some_iff.mp hp).1, hp]

theorem cellAt_mono (h : places <+: places') : L.CellAt places a r ≤ L.CellAt places' a r := by
  refine ex_le fun p => fact_mul_le fun hp => le_ex p ?_
  exact le_fact_mul (getElem?_mono h hp) (L.mono h p r)

theorem partAt_mono (h : places <+: places') : L.PartAt places part ≤ L.PartAt places' part := by
  refine Finset.prod_le_prod' fun a _ => ?_
  cases part.lookup a with
  | none => exact le_refl 1
  | some r => exact cellAt_mono h

theorem partAt_insert (hnew : a ∉ part) :
    L.PartAt places (part.insert a r) = L.CellAt places a r * L.PartAt places part := by
  have hkeys : (part.insert a r).keys = insert a part.keys := by
    ext b
    rw [Finmap.mem_keys, Finmap.mem_insert, Finset.mem_insert, Finmap.mem_keys]
  have hnot : a ∉ part.keys := fun h => hnew (Finmap.mem_keys.mp h)
  rw [PartAt, hkeys, Finset.prod_insert hnot, Finmap.lookup_insert]
  refine congrArg (L.CellAt places a r * ·) (Finset.prod_congr rfl fun b hb => ?_)
  have hne : b ≠ a := fun h => hnot (h ▸ hb)
  rw [Finmap.lookup_insert_of_ne part hne]

/-- One resource is looked at on its own. -/
theorem partAt_split (h : part.lookup a = some r) :
    L.PartAt places part = L.CellAt places a r * L.PartAt places (part.erase a) := by
  rw [← partAt_insert Finmap.notMem_erase_self]
  congr 1
  refine Finmap.ext_lookup fun b => ?_
  by_cases hb : b = a
  · rw [hb, Finmap.lookup_insert, h]
  · rw [Finmap.lookup_insert_of_ne _ hb, Finmap.lookup_erase_ne hb]

theorem heapAt_empty :
    L.HeapAt [] (Heap.empty : Heap A) (Heap.empty : Heap Block).blocks := by
  refine fact_mul.mpr ⟨rfl, ?_⟩
  rw [PartAt, show (Heap.empty : Heap A).blocks = ∅ from rfl, Finmap.keys_empty,
    Finset.prod_empty]
  rfl

section Sizes
variable (hone : ∀ places p r, L.At places p r ≤ atMost 1)
include hone

/-- Memory below has no more blocks than there are resources, if no resource has two. -/
theorem cells_le_atMost (addresses : Finset Nat) :
    ∏ a ∈ addresses, (part.lookup a).elim 1 (L.CellAt places a) ≤ atMost addresses.card := by
  have hcells : ∀ a, (part.lookup a).elim 1 (L.CellAt places a) ≤ atMost 1 := by
    intro a
    cases part.lookup a with
    | none => exact one_le_atMost
    | some r => exact ex_le fun p => fact_mul_le fun _ => hone places p r
  have hsum := prod_le_atMost addresses hcells
  rwa [← Finset.card_eq_sum_ones] at hsum

theorem heapAt_le_atMost {h : Heap A} : L.HeapAt places h ≤ atMost h.blocks.keys.card :=
  fact_mul_le fun _ => cells_le_atMost hone h.blocks.keys

end Sizes

/-! ## The relation between two programs -/

/-- **Refinement**: where the program above runs, the one below does; the results are
related, and memory below has the resources that are left above, and nothing else. -/
def Refines (L : Layout A Block Place) (places : List Place) (spec : Prog A β)
    (impl : Prog Block α) (rel : List Place → β → α → Prop) : Prop :=
  ∀ h b h', spec h = some (b, h') → Triple (L.HeapAt places h) impl fun a =>
    ex fun places' => fact (places <+: places' ∧ rel places' b a) * L.HeapAt places' h'

namespace Refines

variable {spec : Prog A β} {impl : Prog Block α} {rel : List Place → β → α → Prop}
  {f : β → Prog A δ} {g : α → Prog Block γ} {rel' : List Place → δ → γ → Prop}

theorem ret {b : β} {a : α} (h : rel places b a) : L.Refines places (pure b) (pure a) rel := by
  intro heap b' heap' hspec
  obtain ⟨rfl, rfl⟩ := Prod.mk.inj (Option.some.inj hspec)
  exact Triple.ret_of (le_ex places (le_fact_mul ⟨List.prefix_rfl, h⟩ (le_refl _)))

theorem bind (hc : L.Refines places spec impl rel)
    (hf : ∀ places' b a, places <+: places' → rel places' b a →
      L.Refines places' (f b) (g a) rel') :
    L.Refines places (spec >>= f) (impl >>= g) rel' := by
  intro h d h'' hspec
  obtain ⟨b, h', hrun, hrest⟩ := Prog.bind_eq_some.mp hspec
  refine (hc h b h' hrun).bind fun a => Triple.of_ex fun places' => ?_
  refine Triple.of_fact fun ⟨hplaces, hrel⟩ => ?_
  refine (hf places' b a hplaces hrel h' d h'' hrest).post fun c => ex_le fun places'' => ?_
  refine fact_mul_le fun hrest => le_ex places'' ?_
  exact le_fact_mul ⟨hplaces.trans hrest.1, hrest.2⟩ (le_refl _)

/-- Where the program above has a fault, nothing is said. -/
theorem fault : L.Refines places (Prog.fault : Prog A β) impl rel := fun _ _ _ hspec =>
  absurd hspec nofun

/-- A new resource, at a new place. -/
theorem alloc {rel : List Place → Nat → α → Prop} (h : Triple 1 impl fun a => ex fun p =>
      fact (rel (places ++ [p]) places.length a) * L.At (places ++ [p]) p r) :
    L.Refines places (Prog.alloc r) impl rel := by
  intro heap b heap' hspec
  obtain ⟨rfl, rfl⟩ := Prod.mk.inj (Option.some.inj hspec)
  refine Triple.of_fact fun hlength => ?_
  have hstep := h.frame (L.PartAt places heap.blocks)
  rw [one_mul] at hstep
  refine hstep.post fun a => ?_
  rw [ex_mul]
  refine ex_le fun p => ?_
  rw [mul_assoc]
  refine fact_mul_le fun hrel => le_ex (places ++ [p]) ?_
  have hgrown : places <+: places ++ [p] := List.prefix_append _ _
  refine le_fact_mul ⟨hgrown, hlength ▸ hrel⟩ (le_fact_mul ?_ ?_)
  · rw [List.length_append, hlength, List.length_singleton]
  · -- the address is new, so its cell is the only one that is added
    have hnew : heap.next ∉ heap.blocks := fun hmem => Nat.lt_irrefl _ (heap.bounded _ hmem)
    rw [partAt_insert hnew]
    refine mul_le (le_ex p (le_fact_mul ?_ (le_refl _))) (partAt_mono hgrown)
    rw [← hlength, List.getElem?_concat_length]

/-- One resource is looked at. -/
theorem load {kind : A → Option β} (h : ∀ p r b, places[a]? = some p → kind r = some b →
      Triple (L.At places p r) impl fun c => fact (rel places b c) * L.At places p r) :
    L.Refines places (Prog.loadAs kind a) impl rel := by
  intro heap b heap' hspec
  obtain ⟨r, hr, hkind, rfl⟩ := Prog.loadAs_eq_some.mp hspec
  have hpart := @partAt_split _ _ _ L places _ _ _ hr
  refine Triple.of_fact fun hlength => ?_
  rw [hpart, CellAt, ex_mul]
  refine Triple.of_ex fun p => ?_
  rw [mul_assoc]
  refine Triple.of_fact fun hp => ?_
  refine ((h p r b hp hkind).frame _).post fun c => ?_
  rw [mul_assoc]
  refine fact_mul_le fun hrel => le_ex places (le_fact_mul ⟨List.prefix_rfl, hrel⟩ ?_)
  refine le_fact_mul hlength ?_
  rw [hpart]
  exact mul_le (le_ex p (le_fact_mul hp (le_refl _))) (le_refl _)

/-- One resource is given back. -/
theorem free {kind : A → Option β} {rel : List Place → Unit → α → Prop}
    (h : ∀ p r b, places[a]? = some p → kind r = some b →
      Triple (L.At places p r) impl fun c => fact (rel places () c)) :
    L.Refines places (Prog.freeAs kind a) impl rel := by
  intro heap b heap' hspec
  obtain ⟨r, b, hr, hkind, hblocks, hnext⟩ := Prog.freeAs_eq_some.mp hspec
  refine Triple.of_fact fun hlength => ?_
  rw [partAt_split hr, CellAt, ex_mul]
  refine Triple.of_ex fun p => ?_
  rw [mul_assoc]
  refine Triple.of_fact fun hp => ?_
  refine ((h p r b hp hkind).frame _).post fun c => fact_mul_le fun hrel => ?_
  refine le_ex places (le_fact_mul ⟨List.prefix_rfl, hrel⟩ (le_fact_mul ?_ ?_))
  · rw [hlength, hnext]
  · rw [hblocks]

/-- One resource is replaced, at its place. -/
theorem store {rel : List Place → Unit → α → Prop}
    (h : ∀ p r', places[a]? = some p →
      Triple (L.At places p r') impl fun c => fact (rel places () c) * L.At places p r) :
    L.Refines places (Prog.store a r) impl rel := by
  intro heap b heap' hspec
  obtain ⟨hmem, hblocks, hnext⟩ := Prog.store_eq_some.mp hspec
  obtain ⟨r', hr⟩ := Finmap.mem_iff.mp hmem
  refine Triple.of_fact fun hlength => ?_
  rw [partAt_split hr, CellAt, ex_mul]
  refine Triple.of_ex fun p => ?_
  rw [mul_assoc]
  refine Triple.of_fact fun hp => ?_
  refine ((h p r' hp).frame _).post fun c => ?_
  rw [mul_assoc]
  refine fact_mul_le fun hrel => ?_
  refine le_ex places (le_fact_mul ⟨List.prefix_rfl, hrel⟩ (le_fact_mul ?_ ?_))
  · rw [hlength, hnext]
  · have hfresh : a ∉ heap.blocks.erase a := Finmap.notMem_erase_self
    have hsame : heap.blocks.insert a r = (heap.blocks.erase a).insert a r := by
      refine Finmap.ext_lookup fun c => ?_
      by_cases hc : c = a
      · rw [hc, Finmap.lookup_insert, Finmap.lookup_insert]
      · rw [Finmap.lookup_insert_of_ne _ hc, Finmap.lookup_insert_of_ne _ hc,
          Finmap.lookup_erase_ne hc]
    rw [hblocks, hsame, partAt_insert hfresh]
    exact mul_le (le_ex p (le_fact_mul hp (le_refl _))) (le_refl _)

/-- A run below, from a heap that has the resources of the heap above. -/
theorem run (hc : L.Refines places spec impl rel) {h h' : Heap A} {b : β}
    (hspec : spec h = some (b, h')) {m : Heap Block} (hm : L.HeapAt places h m.blocks) :
    ∃ a m' places', impl m = some (a, m') ∧ places <+: places' ∧ rel places' b a ∧
      L.HeapAt places' h' m'.blocks := by
  obtain ⟨a, m', hrun, places', hpost⟩ := (hc h b h' hspec).run hm
  obtain ⟨⟨hplaces, hrel⟩, hm'⟩ := fact_mul.mp hpost
  exact ⟨a, m', places', hrun, hplaces, hrel, hm'⟩

end Refines

/-! ## Programs side by side

Several programs start from one heap.  Each works on a copy of this heap above, where it
leaves all resources of the start as they are; below there is one of each of these, and
what the programs have added lies beside it. -/

/-- The resources of the start are there. -/
def Keeps (h₀ h : Heap A) : Prop := ∀ a r, h₀.blocks.lookup a = some r → h.blocks.lookup a = some r

/-- What was added to the start. -/
def NewAt (L : Layout A Block Place) (places : List Place) (h₀ h : Heap A) : Assn Block :=
  ∏ a ∈ h.blocks.keys \ h₀.blocks.keys, (h.blocks.lookup a).elim 1 (L.CellAt places a)

/-- The places of the start say all about its resources; later places add nothing. -/
structure Settled (L : Layout A Block Place) (places₀ : List Place) (h₀ : Heap A) : Prop where
  length : places₀.length = h₀.next
  at_le : ∀ {places a p r}, places₀ <+: places → h₀.blocks.lookup a = some r →
    L.At places p r ≤ L.At places₀ p r

section Beside

variable {places₀ : List Place} {h₀ h h' : Heap A}

theorem newAt_self : L.NewAt places h h = 1 := by
  rw [NewAt, Finset.sdiff_self, Finset.prod_empty]

theorem newAt_le_atMost (hone : ∀ places p r, L.At places p r ≤ atMost 1) :
    L.NewAt places h₀ h ≤ atMost (h.blocks.keys \ h₀.blocks.keys).card :=
  cells_le_atMost hone _

theorem getElem?_of_lt (hplaces : places₀ <+: places) (ha : a < places₀.length) :
    places₀[a]? = places[a]? := by
  obtain ⟨rest, rfl⟩ := hplaces
  rw [List.getElem?_append_left ha]

theorem partAt_settled (hsettled : L.Settled places₀ h₀) (hplaces : places₀ <+: places) :
    L.PartAt places h₀.blocks = L.PartAt places₀ h₀.blocks := by
  refine ext_le (Finset.prod_le_prod' fun a _ => ?_) (partAt_mono hplaces)
  cases hr : h₀.blocks.lookup a with
  | none => exact le_refl 1
  | some r =>
    have ha : a < places₀.length := by
      rw [hsettled.length]
      exact h₀.bounded a (Finmap.mem_of_lookup_eq_some hr)
    refine ex_le fun p => fact_mul_le fun hp => le_ex p (le_fact_mul ?_ ?_)
    · rw [getElem?_of_lt hplaces ha, hp]
    · exact hsettled.at_le hplaces hr

/-- A heap is the start, and what was added to it. -/
theorem partAt_eq_mul (hsettled : L.Settled places₀ h₀) (hplaces : places₀ <+: places)
    (hkeeps : Keeps h₀ h) :
    L.PartAt places h.blocks = L.PartAt places₀ h₀.blocks * L.NewAt places h₀ h := by
  have hsubset : h₀.blocks.keys ⊆ h.blocks.keys := by
    intro a ha
    obtain ⟨r, hr⟩ := Finmap.mem_iff.mp (Finmap.mem_keys.mp ha)
    exact Finmap.mem_keys.mpr (Finmap.mem_of_lookup_eq_some (hkeeps a r hr))
  have hstart : ∏ a ∈ h₀.blocks.keys, (h.blocks.lookup a).elim 1 (L.CellAt places a) =
      L.PartAt places h₀.blocks := by
    refine Finset.prod_congr rfl fun a ha => ?_
    obtain ⟨r, hr⟩ := Finmap.mem_iff.mp (Finmap.mem_keys.mp ha)
    rw [hr, hkeeps a r hr]
  rw [← partAt_settled hsettled hplaces, ← hstart, mul_comm]
  exact (Finset.prod_sdiff hsubset).symm

/-- **A program beside others** works on the start, which it leaves alone, and on what it has
added. -/
theorem Refines.beside {spec : Prog A β} {impl : Prog Block α} {rel : List Place → β → α → Prop}
    (hc : L.Refines places spec impl rel) (hsettled : L.Settled places₀ h₀)
    (hplaces : places₀ <+: places) (hlength : places.length = h.next) (hkeeps : Keeps h₀ h)
    {b : β} (hspec : spec h = some (b, h')) (hkeeps' : Keeps h₀ h') :
    Triple (L.PartAt places₀ h₀.blocks * L.NewAt places h₀ h) impl fun a => ex fun places' =>
      fact (places <+: places' ∧ places'.length = h'.next ∧ rel places' b a) *
        (L.PartAt places₀ h₀.blocks * L.NewAt places' h₀ h') := by
  refine (hc h b h' hspec).consequence (le_fact_mul hlength ?_) fun a => ex_le fun places' => ?_
  · rw [partAt_eq_mul hsettled hplaces hkeeps]
  · refine fact_mul_le fun ⟨hgrown, hrel⟩ => fact_mul_le fun hlength' => le_ex places' ?_
    refine le_fact_mul ⟨hgrown, hlength', hrel⟩ ?_
    rw [partAt_eq_mul hsettled (hplaces.trans hgrown) hkeeps']

end Beside

end Layout

end Separation
