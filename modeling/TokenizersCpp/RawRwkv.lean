import TokenizersCpp.Factories
import TokenizersCpp.RawMemory

/-!
# The RWKV constructor over memory

`RWKVWorldTokenizer` reads its file into an array that it allocates and deletes by hand.
The exception of `msgpack::unpack` passes over the `delete[]`, so the array of a file that
is not msgpack stays behind (`construct_spec`); every other end gives it back.
-/

namespace TokenizersCpp

open Separation Separation.Assn Traversal

/-- The two steps of `Build.unpack`.  The object has its own copies of the strings, so the
array can be deleted between them. -/
structure Msgpack (b : Build) where
  Object : Type
  /-- `msgpack::unpack(data, length)` and `get()`. -/
  unpack : Bytes → Except CppException Object
  /-- `as<std::unordered_map<int, std::string>>`. -/
  as : Object → Except CppException (Finmap fun _ : Int32 => Bytes)
  unpack_as (content : Bytes) : b.unpack content = unpack content >>= as

/-- In which order a load iterates `_idx2word` and `_word2idx`. -/
structure Orders where
  idx2word (m : Finmap fun _ : Int32 => Bytes) : { idx2word : Idx2Word // idx2word.toFinmap = m }
  word2idx (word2idx : Word2Idx) : { order : Word2Idx // order.toFinmap = word2idx.toFinmap }

namespace Orders

variable (orders : Orders) (cs : CharSign) (m : Finmap fun _ : Int32 => Bytes)

/-- The end of the constructor, in these orders. -/
def load : RWKVWorldTokenizer :=
  let idx2word := (orders.idx2word m).val
  .construct cs idx2word (orders.word2idx (invertIdx2Word idx2word)).val.entries

theorem loadedFrom_load : RWKVWorldTokenizer.LoadedFrom cs m (orders.load cs m) :=
  ⟨(orders.idx2word m).val, (orders.idx2word m).property, (orders.word2idx _).val,
    (orders.word2idx _).property, rfl⟩

instance : Nonempty Orders := by
  have hexists : ∀ m : Finmap fun _ : Int32 => Bytes,
      Nonempty { idx2word : Idx2Word // idx2word.toFinmap = m } := by
    intro m
    induction m using Finmap.induction_on with
    | H a => exact ⟨a, rfl⟩
  exact ⟨fun m => (hexists m).some, fun word2idx => ⟨word2idx, rfl⟩⟩

variable {cs m}

/-- Every load is the one of some orders. -/
theorem exists_load_eq {t : RWKVWorldTokenizer} (h : RWKVWorldTokenizer.LoadedFrom cs m t) :
    ∃ orders : Orders, orders.load cs m = t := by
  obtain ⟨idx2word, rfl, order, horder, rfl⟩ := h
  classical
  obtain ⟨others⟩ := (inferInstance : Nonempty Orders)
  let orders : Orders := {
    idx2word := fun m => if hm : idx2word.toFinmap = m then ⟨idx2word, hm⟩ else others.idx2word m
    word2idx := fun word2idx' =>
      if h : order.toFinmap = word2idx'.toFinmap then ⟨order, h⟩ else others.word2idx word2idx' }
  have hidx : (orders.idx2word idx2word.toFinmap).val = idx2word :=
    congrArg Subtype.val (dif_pos rfl)
  have hword : ∀ idx2word' : Idx2Word, idx2word' = idx2word →
      (orders.word2idx (invertIdx2Word idx2word')).val = order := by
    rintro _ rfl
    exact congrArg Subtype.val (dif_pos horder)
  refine ⟨orders, ?_⟩
  rw [load, hword _ hidx, hidx]

end Orders

variable {b : Build}

namespace RWKVWorldTokenizer

/-- What the constructor makes of a file; `none` is a file that cannot be opened.
`newFails` says that the object, or the array for the file, cannot be allocated.  For a
file that cannot be opened the length of the array is -1: the C++ standard has the
allocation throw `std::bad_array_new_length`, and g++ throws its base class,
`std::bad_alloc`. -/
def made (b : Build) (newFails : Bool) (file : Option Bytes) (orders : Orders) :
    Except CppException RWKVWorldTokenizer :=
  if newFails then .error (.stdException "std::bad_alloc")
  else
    match file with
    | none => .error (.stdException "std::bad_array_new_length")
    | some content => (b.unpack content).map (orders.load b.cs)

/-- **The constructor and the factory** return the same objects. -/
theorem made_eq_ok_iff {content : Bytes} {t : RWKVWorldTokenizer} :
    (∃ newFails orders, made b newFails (some content) orders = .ok t) ↔
      Factories.Returns b (.rwkvWorld content) (some (.rwkvWorld t)) := by
  constructor
  · rintro ⟨newFails, orders, hmade⟩
    cases newFails with
    | true => cases hmade
    | false =>
      cases hmap : b.unpack content with
      | error e => simp [made, hmap, Except.map] at hmade
      | ok m =>
        have ht : orders.load b.cs m = t := by simpa [made, hmap, Except.map] using hmade
        subst ht
        exact .rwkvWorld hmap (orders.loadedFrom_load b.cs m)
  · intro h
    cases h with
    | @rwkvWorld _ m _ hmap hload =>
      obtain ⟨orders, rfl⟩ := Orders.exists_load_eq hload
      exact ⟨false, orders, by simp [made, hmap, Except.map]⟩

end RWKVWorldTokenizer

namespace Raw

namespace RWKVWorldTokenizer

variable (mp : Msgpack b) (newFails : Bool) (file : Option Bytes) (orders : Orders)

/-- `std::make_unique<RWKVWorldTokenizer>(path)`.  The exception for a file that cannot be
opened is the C++ standard's, as in `made`. -/
def construct : Prog b.crates (Except CppException TokenizersCpp.RWKVWorldTokenizer) :=
  if newFails then
    return .error (.stdException "std::bad_alloc")
  else
    match file with
    -- `tellg` of a stream that did not open is -1, which is no length of an array
    | none => return .error (.stdException "std::bad_array_new_length")
    | some content => do
        let data ← Prog.alloc (.bytes content)
        let read ← loadElements Element.byte data
        match mp.unpack read with
        | .error e => return .error e
        | .ok obj => do
            Prog.free data
            match mp.as obj with
            | .error e => return .error e
            | .ok m => return .ok (orders.load b.cs m)

/-- These arrays, and nothing else. -/
def Arrays (contents : List Bytes) : Assn b.crates := somewhere (contents.map Block.bytes)

@[simp] theorem arrays_nil : Arrays [] = (1 : Assn b.crates) := rfl

theorem arrays_append (contents contents' : List Bytes) :
    (Arrays (contents ++ contents') : Assn b.crates) = Arrays contents * Arrays contents' := by
  rw [Arrays, List.map_append, somewhere_append]
  rfl

/-- The arrays that the constructor leaves behind. -/
def leaked : List Bytes :=
  if newFails then []
  else
    match file with
    | none => []
    | some content =>
        match mp.unpack content with
        | .error _ => [content]
        | .ok _ => []

/-- **The constructor** makes what it should, and leaves nothing behind but the array of a
file that is not msgpack. -/
theorem construct_spec :
    Triple 1 (construct mp newFails file orders) fun outcome =>
      fact (outcome = TokenizersCpp.RWKVWorldTokenizer.made b newFails file orders) *
        Arrays (leaked mp newFails file) := by
  cases newFails with
  | true => exact Triple.ret_eq
  | false =>
    cases file with
    | none => exact Triple.ret_eq
    | some content =>
      have hmade : TokenizersCpp.RWKVWorldTokenizer.made b false (some content) orders =
          (mp.unpack content >>= mp.as).map (orders.load b.cs) := by
        rw [← mp.unpack_as]
        rfl
      rw [hmade]
      refine (Triple.alloc (Block.bytes content)).bind fun data => ?_
      refine (@loadElements_spec _ _ Element.byte _ _).bind_eq ?_
      cases hunpack : mp.unpack content with
      | error e =>
        -- the exception leaves the array where it is
        have hleaked : leaked mp false (some content) = [content] := by simp [leaked, hunpack]
        rw [hleaked]
        exact Triple.ret_of (le_fact_mul rfl pointsTo_le_somewhere)
      | ok obj =>
        have hleaked : leaked mp false (some content) = [] := by simp [leaked, hunpack]
        rw [hleaked]
        refine Triple.free.bind fun _ => ?_
        rw [ok_bind]
        cases mp.as obj <;> exact Triple.ret_of (le_fact_mul rfl (le_refl _))

end RWKVWorldTokenizer

end Raw

end TokenizersCpp
