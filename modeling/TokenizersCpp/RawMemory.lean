import TokenizersCpp.HuggingFace
import TokenizersCpp.Separation

/-!
# The memory of the Rust side

`RustFfi` passes a box together with its contents.  Here the boxes of
`rust/src/lib.rs` are blocks of a heap, and what crosses the boundary is an
address: reading a block that was given back, giving it back twice, or reading
behind its end has no result.  A `String` of the wrapper owns a block of its own,
which is freed when the field is assigned and when the wrapper is dropped.

`boxSlice`, `readSlice` and `dropSlice` are what the two languages do with a
boxed slice, and `Holds` is the assertion about a slot that may have one.
-/

namespace TokenizersCpp

open Separation

namespace Raw

/-- A pointer of C.  A boxed slice without elements has no block: its pointer is not
null, and dangles. -/
inductive Pointer
  | null
  | dangling
  | block (address : Nat)
deriving DecidableEq, Repr

/-- A pointer and a length: a `TokenizerEncodeResult`, a `TokenizerErrorMessage`, or the
buffer of a `String`. -/
structure Slice where
  data : Pointer
  len : Nat
deriving DecidableEq, Repr

def Slice.null : Slice := ⟨.null, 0⟩

/-- The slice without elements, as in `String::new()`. -/
def Slice.empty : Slice := ⟨.dangling, 0⟩

/-- `TokenizerWrapper`, as it lies in its box. -/
structure Wrapper (crates : Crates) where
  tokenizer : crates.Tokenizer
  encodeVariants : Option (EncodeVariants crates)
  decodeStr : Slice
  idToTokenResult : Slice

/-- What is allocated and given back by hand: what Rust hands over, the buffers of the strings
that C++ looks into, and the array into which a file is read. -/
inductive Block (crates : Crates)
  | wrapper (w : Wrapper crates)
  | ids (ids : List UInt32)
  | bytes (bytes : Bytes)

/-- A program over this memory. -/
abbrev Prog (crates : Crates) (α : Type) := Separation.Prog (Block crates) α

/-- An assertion about this memory. -/
abbrev Assn (crates : Crates) := Separation.Assn (Block crates)

/-- The elements of a boxed slice. -/
structure Element (crates : Crates) (α : Type) where
  block : List α → Block crates
  elements : Block crates → Option (List α)
  elements_block : ∀ xs, elements (block xs) = some xs

namespace Element
variable {crates : Crates}

/-- `Box<[u32]>`. -/
def id : Element crates UInt32 where
  block := .ids
  elements
    | .ids ids => some ids
    | _ => none
  elements_block _ := rfl

/-- `Box<[u8]>`, and the buffer of a `String`. -/
def byte : Element crates UInt8 where
  block := .bytes
  elements
    | .bytes bytes => some bytes
    | _ => none
  elements_block _ := rfl

end Element

variable {crates : Crates} {α : Type} (elem : Element crates α)

/-- The elements of the block at an address. -/
def loadElements (a : Nat) : Prog crates (List α) := do
  match elem.elements (← Prog.load a) with
  | some xs => return xs
  | none => Prog.fault

/-- `Box::into_raw(xs.into_boxed_slice())`. -/
def boxSlice (xs : List α) : Prog crates Slice :=
  if xs.isEmpty then
    return .empty
  else do
    let a ← Prog.alloc (elem.block xs)
    return ⟨.block a, xs.length⟩

/-- A copy of the elements that a slice points to: `std::string(data, len)`, or the loop
over `token_ids`. -/
def readSlice (slice : Slice) : Prog crates (List α) :=
  if slice.len = 0 then
    return []
  else
    match slice.data with
    | .block a => do
        let xs ← loadElements elem a
        -- reading behind the end of the block is an error, too
        if slice.len ≤ xs.length then return xs.take slice.len else Prog.fault
    | _ => Prog.fault

/-- `drop(Box::from_raw(slice_from_raw_parts_mut(data, len)))`.  The length has to be the
one of the box. -/
def dropSlice (slice : Slice) : Prog crates Unit :=
  if slice.len = 0 then
    return ()
  else
    match slice.data with
    | .block a => do
        let xs ← loadElements elem a
        if slice.len = xs.length then Prog.free a else Prog.fault
    | _ => Prog.fault

/-! ## Slots -/

open Separation.Assn

/-- The slot holds a boxed slice with these elements, or it is null. -/
def Holds (slice : Slice) : Option (List α) → Assn crates
  | none => fact (slice = .null)
  | some [] => fact (slice = .empty)
  | some (x :: xs) => ex fun a =>
      fact (slice = ⟨.block a, (x :: xs).length⟩) * pointsTo a (elem.block (x :: xs))

/-- So do the slots of an array, one by one. -/
def HoldsAll : List Slice → List (Option (List α)) → Assn crates
  | [], [] => 1
  | slice :: slices, content :: contents => Holds elem slice content * HoldsAll slices contents
  | _, _ => fact False

section Slots
variable {elem} {β : Type} {slice : Slice} {xs : List α} {P : Assn crates} {c : Prog crates β}
  {Q : β → Assn crates}

theorem holds_null : (1 : Assn crates) ≤ Holds elem .null none := fun _ h => ⟨rfl, h⟩

theorem holds_empty : (1 : Assn crates) ≤ Holds elem .empty (some []) := fun _ h => ⟨rfl, h⟩

theorem holds_block {a : Nat} (hne : xs ≠ []) :
    pointsTo a (elem.block xs) ≤ Holds elem ⟨.block a, xs.length⟩ (some xs) := by
  intro fragment h
  cases xs with
  | nil => exact absurd rfl hne
  | cons x xs => exact ⟨a, fact_mul.mpr ⟨rfl, h⟩⟩

/-- A slot with a slice is used in one of two ways: there is no block, or one with the
elements. -/
theorem of_holds (hempty : xs = [] → slice = .empty → Triple 1 c Q)
    (hblock : ∀ a, xs ≠ [] → slice = ⟨.block a, xs.length⟩ →
      Triple (pointsTo a (elem.block xs)) c Q) :
    Triple (Holds elem slice (some xs)) c Q := by
  cases xs with
  | nil =>
    refine (Triple.of_fact (hempty rfl)).pre fun fragment h => ?_
    exact fact_mul.mpr h
  | cons x xs => exact Triple.of_ex fun a => Triple.of_fact (hblock a (List.cons_ne_nil x xs))

/-- The elements of an owned block. -/
theorem loadElements_spec {a : Nat} :
    Triple (pointsTo a (elem.block xs)) (loadElements elem a) fun ys =>
      fact (ys = xs) * pointsTo a (elem.block xs) := by
  refine Triple.load.bind_eq ?_
  rw [elem.elements_block]
  exact Triple.ret_eq

/-- **Boxing** hands over the elements. -/
theorem boxSlice_spec (xs : List α) :
    Triple 1 (boxSlice elem xs) fun slice => Holds elem slice (some xs) := by
  cases xs with
  | nil => exact (Triple.ret Slice.empty).pre holds_empty
  | cons x xs =>
    refine (Triple.alloc (elem.block (x :: xs))).bind fun a => ?_
    exact (Triple.ret _).pre (holds_block (List.cons_ne_nil x xs))

/-- **Reading** copies the elements, and leaves the slice. -/
theorem readSlice_spec :
    Triple (Holds elem slice (some xs)) (readSlice elem slice) fun ys =>
      fact (ys = xs) * Holds elem slice (some xs) := by
  refine of_holds (fun hnil hslice => ?_) fun a hne hslice => ?_
  · subst hnil hslice
    exact Triple.ret_eq.post fun _ => mul_le_mul_right holds_empty _
  · subst hslice
    have hpos : ¬ xs.length = 0 := fun hzero => hne (List.length_eq_zero_iff.mp hzero)
    rw [readSlice, if_neg hpos]
    refine loadElements_spec.bind_eq ?_
    rw [if_pos (le_refl _), List.take_length]
    exact Triple.ret_eq.post fun _ => mul_le_mul_right (holds_block hne) _

/-- There is nothing to drop in an empty slice. -/
theorem dropSlice_of_len (h : slice.len = 0) : dropSlice elem slice = pure () := if_pos h

/-- **Dropping** gives the slice back. -/
theorem dropSlice_spec :
    Triple (Holds elem slice (some xs)) (dropSlice elem slice) fun _ => 1 := by
  refine of_holds (fun hnil hslice => ?_) fun a hne hslice => ?_
  · subst hslice
    rw [dropSlice_of_len rfl]
    exact Triple.ret_eq.post fun _ _ h => (fact_mul.mp h).2
  · subst hslice
    have hpos : ¬ xs.length = 0 := fun hzero => hne (List.length_eq_zero_iff.mp hzero)
    rw [dropSlice, if_neg hpos]
    refine loadElements_spec.bind_eq ?_
    rw [if_pos rfl]
    exact Triple.free

/-- Cleared slots hold nothing. -/
theorem holdsAll_null (n : Nat) :
    (1 : Assn crates) ≤ HoldsAll elem (List.replicate n .null) (List.replicate n none) := by
  induction n with
  | zero => exact le_refl 1
  | succ n ih =>
    calc (1 : Assn crates) = 1 * 1 := (one_mul 1).symm
      _ ≤ _ := mul_le holds_null ih

/-- A slot has at most one block. -/
theorem holds_le_atMost {content : Option (List α)} : Holds elem slice content ≤ atMost 1 := by
  match content with
  | none => exact fact_le fun _ => one_le_atMost
  | some [] => exact fact_le fun _ => one_le_atMost
  | some (x :: xs) => exact ex_le fun a => fact_mul_le fun _ => pointsTo_le_atMost

/-- No slots, no blocks. -/
theorem empty_of_holdsAll {contents : List (Option (List α))} {fragment : Fragment (Block crates)}
    (h : HoldsAll elem [] contents fragment) : fragment = ∅ := by
  cases contents with
  | nil => exact h
  | cons content contents => exact absurd h.1 id

/-- Every slot of an array has its content. -/
theorem length_of_holdsAll {slices : List Slice} {contents : List (Option (List α))}
    {fragment : Fragment (Block crates)} (h : HoldsAll elem slices contents fragment) :
    slices.length = contents.length := by
  induction slices generalizing contents fragment with
  | nil =>
    cases contents with
    | nil => rfl
    | cons content contents => exact absurd h.1 id
  | cons slice slices ih =>
    cases contents with
    | nil => exact absurd h.1 id
    | cons content contents =>
      obtain ⟨_, q, -, -, -, hq⟩ := h
      exact congrArg Nat.succ (ih hq)

end Slots

/-! ## Wrappers -/

/-- What a load leaves in a wrapper, and no call changes. -/
structure Load (crates : Crates) where
  tokenizer : crates.Tokenizer
  encodeVariants : Option (EncodeVariants crates)

/-- The wrapper, as `Wrapper` has it. -/
def Load.wrapper (load : Load crates) : TokenizerWrapper crates :=
  ⟨load.tokenizer, load.encodeVariants, .new, .new⟩

/-- The handle, as `CAbi` passes it: the wrapper is in the box.  No computation looks at
the address. -/
def asHandle (load : Option (Load crates)) : TokenizerHandle crates :=
  load.map fun load => ⟨0, load.wrapper⟩

/-- The load of a new wrapper. -/
def Load.of (w : TokenizerWrapper crates) : Load crates := ⟨w.tokenizer, w.encodeVariants⟩

def Wrapper.load (w : Wrapper crates) : Load crates := ⟨w.tokenizer, w.encodeVariants⟩

/-- `*(handle as *const TokenizerWrapper)`. -/
def loadWrapper (a : Nat) : Prog crates (Wrapper crates) := do
  match ← Prog.load a with
  | .wrapper w => return w
  | _ => Prog.fault

/-- The wrapper lies at the address, with its two texts. -/
def WrapperAt (a : Nat) (w : Wrapper crates) (decodeStr idToTokenResult : Bytes) : Assn crates :=
  pointsTo a (.wrapper w) * (Holds .byte w.decodeStr (some decodeStr) *
    Holds .byte w.idToTokenResult (some idToTokenResult))

/-- The pointer is a live handle for the load, or it is null. -/
def HandleAt (p : Pointer) : Option (Load crates) → Assn crates
  | none => fact (p = .null)
  | some load => ex fun a => ex fun w : Wrapper crates => ex fun texts : Bytes × Bytes =>
      fact (p = .block a ∧ w.load = load) * WrapperAt a w texts.1 texts.2

section Wrappers
variable {β : Type} {a : Nat} {w : Wrapper crates} {d i : Bytes} {p : Pointer} {load : Load crates}
  {c : Prog crates β} {Q : β → Assn crates}

theorem loadWrapper_spec :
    Triple (pointsTo a (.wrapper w)) (loadWrapper a) fun w' =>
      fact (w' = w) * pointsTo a (.wrapper w) :=
  Triple.load.bind_eq Triple.ret_eq

theorem handleAt_null : (1 : Assn crates) ≤ HandleAt (.null) none := fun _ h => ⟨rfl, h⟩

theorem handleAt_wrapper : WrapperAt a w d i ≤ HandleAt (.block a) (some w.load) :=
  fun _ h => ⟨a, w, (d, i), fact_mul.mpr ⟨⟨rfl, rfl⟩, h⟩⟩

/-- A handle has at most the box and the two buffers of its strings. -/
theorem handleAt_le_atMost : HandleAt p (some load) ≤ atMost 3 := by
  refine ex_le fun a => ex_le fun w => ex_le fun texts => fact_mul_le fun _ => ?_
  exact mul_le_atMost pointsTo_le_atMost (mul_le_atMost holds_le_atMost holds_le_atMost)

/-- A live handle is used through the wrapper behind it. -/
theorem of_handleAt (h : ∀ a w d i, p = .block a → w.load = load → Triple (WrapperAt a w d i) c Q) :
    Triple (HandleAt p (some load)) c Q :=
  Triple.of_ex fun a => Triple.of_ex fun w => Triple.of_ex fun texts =>
    Triple.of_fact fun hp => h a w texts.1 texts.2 hp.1 hp.2

end Wrappers

end Raw

end TokenizersCpp
