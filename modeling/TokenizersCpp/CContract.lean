import TokenizersCpp.RawAbi
import TokenizersCpp.Refinement

/-!
# The contract of the C entry points

What `tokenizers_c.h` promises to C code, as a library of its own (`contract`) beside the
one over memory (`rawLibrary`).  The contract knows no addresses and no lengths: it hands out
**resources**, which are objects, the texts of objects, lists of ids and messages.  An object
owns two texts, and a call that makes a new one gives the old one back.  It has no
result for a resource that was given back, and nothing is said about what the library over
memory does there.

Each entry point over memory refines the one of the contract (`encode_refines` and the
others): it returns the same status, and for each resource a pointer to the place where
this resource lies (`layout`).
-/

namespace TokenizersCpp

open Separation Separation.Assn

namespace Raw

namespace CClient

/-- The library as C code uses it: the entry points, with the slots for their outputs as
results, and what C itself does with memory that it was given.  A slot for an output is
cleared before each call. -/
structure Library (Block Handle Slot View : Type) where
  newFromStr (json : Bytes) : Separation.Prog Block (TokenizerStatus × Handle × Slot)
  byteLevelBpeNewFromStr (vocab merges addedTokens : Bytes) :
    Separation.Prog Block (TokenizerStatus × Handle × Slot)
  encode (handle : Handle) (text : Bytes) (addSpecialTokens : Int32) (flags : UInt32) :
    Separation.Prog Block (TokenizerStatus × Slot × Slot)
  encodeBatch (handle : Handle) (texts : List Bytes) (addSpecialTokens : Int32)
    (flags : UInt32) : Separation.Prog Block (TokenizerStatus × List Slot × Slot)
  freeEncodeResults (results : List Slot) : Separation.Prog Block (List Slot)
  freeErrorMessage (error : Slot) : Separation.Prog Block Slot
  decode (handle : Handle) (ids : List UInt32) (skipSpecialTokens : Int32) :
    Separation.Prog Block Unit
  getDecodeStr (handle : Handle) (view : Option View) : Separation.Prog Block (Option View)
  getVocabSize (handle : Handle) : Separation.Prog Block (Option Nat)
  idToToken (handle : Handle) (id : UInt32) (view : Option View) :
    Separation.Prog Block (Option View)
  tokenToId (handle : Handle) (token : Bytes) : Separation.Prog Block (Option Int32)
  free (handle : Handle) : Separation.Prog Block Unit
  /-- The loop of C over `token_ids`. -/
  readIds (result : Slot) : Separation.Prog Block (List UInt32)
  readMessage (error : Slot) : Separation.Prog Block Bytes
  readView (view : View) : Separation.Prog Block Bytes

variable {crates : Crates}

/-! ## The library over memory -/

/-- The status, the output and the message, where slots were passed for both. -/
def slots {S : Type} (null : S) (done : FfiReturn (Option S)) :
    TokenizerStatus × S × Slice :=
  (done.status, done.slots.getD null, done.error.getD .null)

/-- The entry points of `rust/src/lib.rs`.  A cell that is not written to is `none`. -/
def rawLibrary (crates : Crates) : Library (Block crates) Pointer Slice Slice where
  newFromStr json := do
    let done ← tokenizersNewFromStr (some json) json.length (some .null) (some .null)
    return slots .null done
  byteLevelBpeNewFromStr vocab merges addedTokens := do
    let done ← byteLevelBpeTokenizersNewFromStr (some vocab) vocab.length (some merges)
      merges.length (some addedTokens) addedTokens.length (some .null) (some .null)
    return slots .null done
  encode handle text addSpecialTokens flags := do
    let done ← tokenizersEncode handle (some text) text.length addSpecialTokens flags
      (some .null) (some .null)
    return slots .null done
  encodeBatch handle texts addSpecialTokens flags := do
    let done ← tokenizersEncodeBatch handle (some (texts.map some))
      (some (texts.map List.length)) texts.length addSpecialTokens flags
      (some (List.replicate texts.length .null)) (some .null)
    return slots [] done
  freeEncodeResults results := do
    let results ← tokenizersFreeEncodeResults (some results) results.length
    return results.getD []
  freeErrorMessage error := do
    let error ← tokenizersFreeErrorMessage (some error)
    return error.getD .null
  decode handle ids skipSpecialTokens :=
    tokenizersDecode handle (some ids) ids.length skipSpecialTokens
  getDecodeStr handle view := do
    let view ← tokenizersGetDecodeStr handle (some view)
    return view.join
  getVocabSize handle := do
    let size ← tokenizersGetVocabSize handle (some none)
    return size.join
  idToToken handle id view := do
    let view ← tokenizersIdToToken handle id (some view)
    return view.join
  tokenToId handle token := do
    let id ← tokenizersTokenToId handle (some token) token.length (some none)
    return id.join
  free := tokenizersFree
  readIds := readSlice .id
  readMessage := readSlice .byte
  readView := readSlice .byte

/-! ## The contract -/

/-- A tokenizer: what was loaded, and the two texts that it owns. -/
structure Object (crates : Crates) where
  load : Load crates
  decodeStr : Nat
  idToTokenResult : Nat

/-- What the library hands out. -/
inductive Resource (crates : Crates)
  | object (o : Object crates)
  | text (bytes : Bytes)
  | ids (ids : List UInt32)
  | message (bytes : Bytes)

namespace Resource

def asObject : Resource crates → Option (Object crates)
  | .object o => some o
  | _ => none

def asText : Resource crates → Option Bytes
  | .text bytes => some bytes
  | _ => none

def asIds : Resource crates → Option (List UInt32)
  | .ids xs => some xs
  | _ => none

def asMessage : Resource crates → Option Bytes
  | .message bytes => some bytes
  | _ => none

end Resource

namespace Contract

/-- A program over resources. -/
abbrev Prog (crates : Crates) (α : Type) := Separation.Prog (Resource crates) α

/-- A handle is null, or an object. -/
def openObject : Option Nat → Prog crates (Option (Load crates))
  | none => return none
  | some h => do
      let o ← Prog.loadAs Resource.asObject h
      return some o.load

/-- An entry point hands over its output, or a message. -/
def call {α S : Type} (compute : Prog crates (Rust α)) (give : α → Prog crates S) (null : S) :
    Prog crates (TokenizerStatus × S × Option Nat) := do
  match ← compute with
  | .ok a => do
      let output ← give a
      return (.ok, output, none)
  | .error abort => do
      let message ← Prog.alloc (.message (strBytes abort.message))
      return (abort.status, null, some message)

/-- A new object has empty texts. -/
def giveObject (w : TokenizerWrapper crates) : Prog crates (Option Nat) := do
  let decodeStr ← Prog.alloc (.text [])
  let idToTokenResult ← Prog.alloc (.text [])
  let o ← Prog.alloc (.object ⟨Load.of w, decodeStr, idToTokenResult⟩)
  return some o

def giveIds (ids : List UInt32) : Prog crates (Option Nat) := do
  let result ← Prog.alloc (.ids ids)
  return some result

def giveBatch : List (List UInt32) → Prog crates (List (Option Nat))
  | [] => return []
  | ids :: batch => do
      let result ← giveIds ids
      let results ← giveBatch batch
      return result :: results

/-- A text of an object is replaced: there is a new one, and the old one is given back. -/
def assignText (old : Nat) (text : String) : Prog crates Nat := do
  let new ← Prog.alloc (.text (strBytes text))
  Prog.freeAs Resource.asText old
  return new

/-- Results are given back one by one; a null slot is passed over. -/
def freeResults : List (Option Nat) → Prog crates (List (Option Nat))
  | [] => return []
  | none :: results => do
      let results ← freeResults results
      return none :: results
  | some result :: results => do
      Prog.freeAs Resource.asIds result
      let results ← freeResults results
      return none :: results

end Contract

open Contract in
/-- **The contract.** -/
def contract (crates : Crates) : Library (Resource crates) (Option Nat) (Option Nat) Nat where
  newFromStr json := call
    (return do
      let json ← inputStr crates.utf8Error (some json) json.length "Tokenizer JSON"
      TokenizerWrapper.fromStr crates json) giveObject none
  byteLevelBpeNewFromStr vocab merges addedTokens := call
    (return do
      let vocab ← inputStr crates.utf8Error (some vocab) vocab.length "BPE vocabulary"
      let merges ← inputStr crates.utf8Error (some merges) merges.length "BPE merges"
      let addedTokens ← inputStr crates.utf8Error (some addedTokens) addedTokens.length
        "BPE added-token map"
      TokenizerWrapper.byteLevelBpeFromStr crates vocab merges addedTokens) giveObject none
  encode handle text addSpecialTokens flags := call
    (do
      let load ← openObject handle
      return encodeInput (asHandle load) (some text) text.length addSpecialTokens flags)
    giveIds none
  encodeBatch handle texts addSpecialTokens flags := call
    (do
      let load ← openObject handle
      return encodeInputs (asHandle load) (texts.map some) (texts.map List.length) texts.length
        addSpecialTokens flags)
    giveBatch (List.replicate texts.length none)
  freeEncodeResults := freeResults
  freeErrorMessage
    | none => return none
    | some message => do
        Prog.freeAs Resource.asMessage message
        return none
  decode
    | none, _, _ => return ()
    | some h, ids, skipSpecialTokens => do
        let o ← Prog.loadAs Resource.asObject h
        let decodeStr ← assignText o.decodeStr
          (o.load.wrapper.decodedText ids (skipSpecialTokens != 0))
        Prog.store h (.object { o with decodeStr })
  getDecodeStr
    | none, view => return view
    | some h, _ => do
        let o ← Prog.loadAs Resource.asObject h
        return some o.decodeStr
  getVocabSize
    | none => return none
    | some h => do
        let o ← Prog.loadAs Resource.asObject h
        return some (crates.getVocabSize o.load.tokenizer true)
  idToToken
    | none, _, view => return view
    | some h, id, _ => do
        let o ← Prog.loadAs Resource.asObject h
        let idToTokenResult ← assignText o.idToTokenResult (o.load.wrapper.tokenText id)
        Prog.store h (.object { o with idToTokenResult })
        return some idToTokenResult
  tokenToId
    | none, _ => return none
    | some h, token => do
        let o ← Prog.loadAs Resource.asObject h
        return some ((TokenizersCpp.tokenizersTokenToId (asHandle (some o.load)) (some token)
          token.length (some 0)).getD 0)
  free
    | none => return ()
    | some h => do
        let o ← Prog.loadAs Resource.asObject h
        Prog.freeAs Resource.asText o.decodeStr
        Prog.freeAs Resource.asText o.idToTokenResult
        Prog.freeAs Resource.asObject h
  readIds
    | none => return []
    | some result => Prog.loadAs Resource.asIds result
  readMessage
    | none => return []
    | some message => Prog.loadAs Resource.asMessage message
  readView text := Prog.loadAs Resource.asText text

/-! ## Where the resources lie -/

/-- The box of an object, or the slice of anything else. -/
inductive Place
  | box (address : Nat)
  | slice (slice : Slice)

/-- The wrapper is the one of the object: it has what was loaded, and its strings lie where
the texts of the object do. -/
structure LiesIn (places : List Place) (o : Object crates) (w : Wrapper crates) : Prop where
  load : w.load = o.load
  decodeStr : places[o.decodeStr]? = some (.slice w.decodeStr)
  idToTokenResult : places[o.idToTokenResult]? = some (.slice w.idToTokenResult)

theorem LiesIn.mono {places places' : List Place} {o : Object crates} {w : Wrapper crates}
    (h : places <+: places') (hw : LiesIn places o w) : LiesIn places' o w :=
  ⟨hw.load, Layout.getElem?_mono h hw.decodeStr,
    Layout.getElem?_mono h hw.idToTokenResult⟩

/-- How each kind of resource lies at its place. -/
def layout (crates : Crates) : Layout (Resource crates) (Block crates) Place where
  At places
    | .box a, .object o => ex fun w => fact (LiesIn places o w) * pointsTo a (.wrapper w)
    | .slice slice, .text bytes => Holds .byte slice (some bytes)
    | .slice slice, .ids ids => Holds .id slice (some ids)
    | .slice slice, .message bytes => Holds .byte slice (some bytes)
    | _, _ => fact False
  mono {places places'} h p r := by
    match p, r with
    | .box a, .object o =>
      refine ex_le fun w => fact_mul_le fun hw => le_ex w ?_
      exact le_fact_mul (hw.mono h) (le_refl _)
    | .slice _, .text _ | .slice _, .ids _ | .slice _, .message _ => exact le_refl _
    | .box _, .text _ | .box _, .ids _ | .box _, .message _ | .slice _, .object _ =>
      exact le_refl _

/-- A handle points to the box of its object. -/
def IsHandle (places : List Place) : Option Nat → Pointer → Prop
  | none, p => p = .null
  | some h, p => ∃ a, places[h]? = some (.box a) ∧ p = .block a

/-- A slot has the slice of its resource. -/
def IsSlot (places : List Place) : Option Nat → Slice → Prop
  | none, slice => slice = .null
  | some r, slice => places[r]? = some (.slice slice)

/-- A view is the slice of a text. -/
def IsView (places : List Place) (text : Nat) (view : Slice) : Prop :=
  places[text]? = some (.slice view)

/-! ## Each entry point refines the contract -/

section Refinement

variable {places places' : List Place} {h r t : Option Nat} {p : Pointer} {slice : Slice}

theorem IsHandle.mono (hplaces : places <+: places') (hp : IsHandle places h p) :
    IsHandle places' h p := by
  cases h with
  | none => exact hp
  | some h =>
    obtain ⟨a, ha, rfl⟩ := hp
    exact ⟨a, Layout.getElem?_mono hplaces ha, rfl⟩

theorem IsSlot.mono (hplaces : places <+: places') (hs : IsSlot places r slice) :
    IsSlot places' r slice := by
  cases r with
  | none => exact hs
  | some r => exact Layout.getElem?_mono hplaces hs

/-! ### Resources with a slice -/

/-- A kind of resource that lies in a slice. -/
structure Sliced (crates : Crates) (α : Type) where
  elem : Element crates α
  make : List α → Resource crates
  kind : Resource crates → Option (List α)
  eq_make {resource : Resource crates} {xs : List α} : kind resource = some xs → resource = make xs
  at_eq {places : List Place} {slice : Slice} {xs : List α} :
    (layout crates).At places (.slice slice) (make xs) = Holds elem slice (some xs)

namespace Sliced

def text : Sliced crates UInt8 where
  elem := .byte
  make := .text
  kind := Resource.asText
  eq_make {resource xs} h := by
    cases resource with
    | text bytes => exact congrArg _ (Option.some.inj h)
    | _ => cases h
  at_eq := rfl

def ids : Sliced crates UInt32 where
  elem := .id
  make := .ids
  kind := Resource.asIds
  eq_make {resource xs} h := by
    cases resource with
    | ids ids => exact congrArg _ (Option.some.inj h)
    | _ => cases h
  at_eq := rfl

def message : Sliced crates UInt8 where
  elem := .byte
  make := .message
  kind := Resource.asMessage
  eq_make {resource xs} h := by
    cases resource with
    | message bytes => exact congrArg _ (Option.some.inj h)
    | _ => cases h
  at_eq := rfl

variable {α : Type} (k : Sliced crates α)

theorem alloc_refines (xs : List α) :
    (layout crates).Refines places (Prog.alloc (k.make xs)) (boxSlice k.elem xs)
      fun places' r slice => places'[r]? = some (.slice slice) := by
  refine Layout.Refines.alloc ((boxSlice_spec xs).post fun slice => le_ex (.slice slice) ?_)
  exact le_fact_mul List.getElem?_concat_length (le_of_eq k.at_eq.symm)

variable {k} {a : Nat} {o : Object crates} {w : Wrapper crates}

theorem load_refines {r : Nat} (hr : places[r]? = some (.slice slice)) :
    (layout crates).Refines places (Prog.loadAs k.kind r) (readSlice k.elem slice)
      fun _ xs ys => ys = xs := by
  refine Layout.Refines.load fun p resource xs hp hkind => ?_
  obtain rfl := Option.some.inj (hr.symm.trans hp)
  rw [k.eq_make hkind, k.at_eq]
  exact readSlice_spec

theorem free_refines {r : Nat} (hr : places[r]? = some (.slice slice)) :
    (layout crates).Refines places (Prog.freeAs k.kind r) (dropSlice k.elem slice)
      fun _ _ _ => True := by
  refine Layout.Refines.free fun p resource xs hp hkind => ?_
  obtain rfl := Option.some.inj (hr.symm.trans hp)
  rw [k.eq_make hkind, k.at_eq, fact_true]
  exact dropSlice_spec

end Sliced

/-! ### Objects -/

section Objects

variable {a h : Nat} {o : Object crates} {w : Wrapper crates}

theorem loadWrapper_refines (hbox : places[h]? = some (.box a)) :
    (layout crates).Refines places (Prog.loadAs Resource.asObject h) (loadWrapper a) LiesIn := by
  refine Layout.Refines.load fun p resource o hp hkind => ?_
  obtain rfl := Option.some.inj (hbox.symm.trans hp)
  cases resource with
  | object o' =>
    obtain rfl := Option.some.inj hkind
    refine Triple.of_ex fun w => Triple.of_fact fun hw => loadWrapper_spec.post fun w' => ?_
    refine fact_mul_le fun hw' => ?_
    subst hw'
    exact le_fact_mul hw (le_ex w' (le_fact_mul hw (le_refl _)))
  | _ => cases hkind

/-- The wrapper is replaced in its box. -/
theorem store_refines (hbox : places[h]? = some (.box a)) (hw : LiesIn places o w) :
    (layout crates).Refines places (Prog.store h (.object o)) (Prog.store a (.wrapper w))
      fun _ _ _ => True := by
  refine Layout.Refines.store fun p resource hp => ?_
  obtain rfl := Option.some.inj (hbox.symm.trans hp)
  rw [fact_true]
  cases resource with
  | object o' =>
    refine Triple.of_ex fun w' => Triple.of_fact fun _ => (Triple.store _).post fun _ => ?_
    rw [one_mul]
    exact le_ex w (le_fact_mul hw (le_refl _))
  | _ => exact Triple.of_fact_only fun hfalse => absurd hfalse id

theorem freeBox_refines (hbox : places[h]? = some (.box a)) :
    (layout crates).Refines places (Prog.freeAs Resource.asObject h) (Prog.free a)
      fun _ _ _ => True := by
  refine Layout.Refines.free fun p resource o hp hkind => ?_
  obtain rfl := Option.some.inj (hbox.symm.trans hp)
  rw [fact_true]
  cases resource with
  | object o' => exact Triple.of_ex fun w => Triple.of_fact fun _ => Triple.free
  | _ => cases hkind

/-- A handle is opened. -/
theorem openHandle_refines {h : Option Nat} (hp : IsHandle places h p) :
    (layout crates).Refines places (Contract.openObject h) (openHandle p)
      fun _ load handle => handle = asHandle load := by
  cases h with
  | none =>
    subst hp
    exact Layout.Refines.ret rfl
  | some h =>
    obtain ⟨a, ha, rfl⟩ := hp
    refine (loadWrapper_refines ha).bind fun places' o w _ hw => Layout.Refines.ret ?_
    rw [hw.load]

/-- A new wrapper is boxed; its strings have no buffers yet. -/
theorem boxWrapper_refines (w : TokenizerWrapper crates) :
    (layout crates).Refines places (Contract.giveObject w) (boxWrapper w) IsHandle := by
  have hempty : boxWrapper w = (boxSlice .byte [] >>= fun decodeStr =>
      boxSlice .byte [] >>= fun idToTokenResult => Prog.alloc (Block.wrapper ⟨w.tokenizer,
        w.encodeVariants, decodeStr, idToTokenResult⟩) >>= fun a => pure (.block a)) := rfl
  rw [hempty]
  refine (Sliced.text.alloc_refines []).bind fun places₁ d decodeStr _ hd => ?_
  refine (Sliced.text.alloc_refines []).bind fun places₂ i idToTokenResult h₂ hi => ?_
  have hbox : (layout crates).Refines places₂
      (Prog.alloc (.object ⟨Load.of w, d, i⟩)) (Prog.alloc (.wrapper ⟨w.tokenizer,
        w.encodeVariants, decodeStr, idToTokenResult⟩))
      fun places' o a => places'[o]? = some (.box a) := by
    refine Layout.Refines.alloc ((Triple.alloc _).post fun a => le_ex (.box a) ?_)
    refine le_fact_mul List.getElem?_concat_length (le_ex _ (le_fact_mul ?_ (le_refl _)))
    exact LiesIn.mono (List.prefix_append _ _) ⟨rfl, Layout.getElem?_mono h₂ hd, hi⟩
  exact hbox.bind fun places₃ o a _ ho => Layout.Refines.ret ⟨a, ho, rfl⟩

end Objects

/-! ### Calls that hand something over -/

section Calls

variable {α S S' : Type} {compute : Contract.Prog crates (Rust α)}
  {compute' : Prog crates (Rust α)} {give : α → Contract.Prog crates S} {null : S} {null' : S'}
  {relS : List Place → S → S' → Prop} {h : Option Nat}

/-- What a call returns, on both sides. -/
structure Agree (relS : List Place → S → S' → Prop) (places : List Place)
    (done : TokenizerStatus × S × Option Nat) (done' : TokenizerStatus × S' × Slice) : Prop where
  status : done'.1 = done.1
  output : relS places done.2.1 done'.2.1
  message : IsSlot places done.2.2 done'.2.2

/-- **The guarded call**: its closure hands over the output of the computation, or leaves the
slots null. -/
theorem ffiCall_refines {action : Prog crates (Rust Unit × Option S')}
    (haction : (layout crates).Refines places
      (compute >>= fun result => match result with
        | .ok a => give a >>= fun output => pure (Except.ok (), output)
        | .error abort => pure (Except.error abort, null))
      action fun places' ended ended' => ended'.1 = ended.1 ∧
        ∃ output, ended'.2 = some output ∧ relS places' ended.2 output)
    (hmono : ∀ {places places' : List Place} {output : S} {output' : S'}, places <+: places' →
      relS places output output' → relS places' output output') :
    (layout crates).Refines places (Contract.call compute give null)
      (ffiCall (some .null) action >>= fun done => pure (slots null' done)) (Agree relS) := by
  have hspec : Contract.call compute give null = ((compute >>= fun result => match result with
        | .ok a => give a >>= fun output => pure (Except.ok (), output)
        | .error abort => pure (Except.error abort, null)) >>= fun ended => match ended.1 with
        | .ok () => pure (TokenizerStatus.ok, ended.2, none)
        | .error abort => Prog.alloc (.message (strBytes abort.message)) >>= fun message =>
            pure (abort.status, ended.2, some message)) := by
    rw [Contract.call, bind_assoc]
    refine bind_congr fun result => ?_
    cases result with
    | ok a => rw [bind_assoc]; rfl
    | error abort => rfl
  rw [ffiCall, bind_assoc, hspec]
  refine haction.bind fun places₁ ended ended' _ hended => ?_
  obtain ⟨result, output⟩ := ended
  obtain ⟨result', slot⟩ := ended'
  obtain ⟨hresult, output', hslot, hrel⟩ := hended
  simp only at hresult hslot hrel
  subst hresult hslot
  cases result' with
  | ok u => exact Layout.Refines.ret ⟨rfl, hrel, rfl⟩
  | error abort =>
    simp only [writeErrorMessage, Option.map_some, bind_assoc, pure_bind]
    refine (Sliced.message.alloc_refines (strBytes abort.message)).bind
      fun places₂ message error h₂ hmessage => ?_
    exact Layout.Refines.ret ⟨rfl, hmono h₂ hrel, hmessage⟩

/-- An entry point with one output slot. -/
theorem writeSlot_refines {nullMessage : String} {box : α → Prog crates S'} {slot : S'}
    (hcompute : (layout crates).Refines places compute compute' fun _ result result' =>
      result' = result)
    (hgive : ∀ places a, (layout crates).Refines places (give a) (box a) relS)
    (hnull : ∀ places, relS places null null')
    (hmono : ∀ {places places' : List Place} {output : S} {output' : S'}, places <+: places' →
      relS places output output' → relS places' output output') :
    (layout crates).Refines places (Contract.call compute give null)
      (ffiCall (some .null) (writeSlot nullMessage null' box (some slot) compute') >>= fun done =>
        pure (slots null' done)) (Agree relS) := by
  refine ffiCall_refines (hcompute.bind fun places₁ result result' _ hresult => ?_) hmono
  subst hresult
  cases result' with
  | ok a =>
    refine (hgive places₁ a).bind fun places₂ output output' _ hrel => ?_
    exact Layout.Refines.ret ⟨rfl, output', rfl, hrel⟩
  | error abort => exact Layout.Refines.ret ⟨rfl, null', rfl, hnull places₁⟩

theorem giveIds_refines (places : List Place) (ids : List UInt32) :
    (layout crates).Refines places (Contract.giveIds ids) (boxSlice .id ids) IsSlot := by
  rw [← bind_pure (boxSlice Element.id ids)]
  exact (Sliced.ids.alloc_refines ids).bind fun _ _ _ _ hr => Layout.Refines.ret hr

theorem newFromStr_refines (json : Bytes) :
    (layout crates).Refines places ((contract crates).newFromStr json)
      ((rawLibrary crates).newFromStr json) (Agree IsHandle) :=
  writeSlot_refines (Layout.Refines.ret rfl) (fun _ w => boxWrapper_refines w) (fun _ => rfl)
    IsHandle.mono

theorem byteLevelBpeNewFromStr_refines (vocab merges addedTokens : Bytes) :
    (layout crates).Refines places
      ((contract crates).byteLevelBpeNewFromStr vocab merges addedTokens)
      ((rawLibrary crates).byteLevelBpeNewFromStr vocab merges addedTokens) (Agree IsHandle) :=
  writeSlot_refines (Layout.Refines.ret rfl) (fun _ w => boxWrapper_refines w) (fun _ => rfl)
    IsHandle.mono

theorem encode_refines (hp : IsHandle places h p) (text : Bytes) (addSpecialTokens : Int32)
    (flags : UInt32) :
    (layout crates).Refines places ((contract crates).encode h text addSpecialTokens flags)
      ((rawLibrary crates).encode p text addSpecialTokens flags) (Agree IsSlot) := by
  refine writeSlot_refines ?_ giveIds_refines (fun _ => rfl) IsSlot.mono
  exact (openHandle_refines hp).bind fun _ load handle _ hload =>
    Layout.Refines.ret (by rw [hload])

/-! ### Batches -/

theorem forall₂_isSlot_mono {results : List (Option Nat)} {slices : List Slice}
    (hplaces : places <+: places') (h : List.Forall₂ (IsSlot places) results slices) :
    List.Forall₂ (IsSlot places') results slices :=
  h.imp fun _ _ => IsSlot.mono hplaces

theorem forall₂_isSlot_null (places : List Place) (n : Nat) :
    List.Forall₂ (IsSlot places) (List.replicate n none) (List.replicate n .null) := by
  induction n with
  | zero => exact .nil
  | succ n ih => exact .cons rfl ih

/-- The loop that hands the lists of a batch over. -/
theorem handOver_refines (batch : List (List UInt32)) :
    (layout crates).Refines places (Contract.giveBatch batch) (handOver batch)
      fun places' results slices => slices.length = batch.length ∧
        List.Forall₂ (IsSlot places') results slices := by
  induction batch generalizing places with
  | nil => exact Layout.Refines.ret ⟨rfl, .nil⟩
  | cons ids batch ih =>
    refine (giveIds_refines places ids).bind fun places₁ r slice _ hr => ?_
    refine ih.bind fun places₂ results slices h₂ hresults => ?_
    refine Layout.Refines.ret ⟨congrArg Nat.succ hresults.1, ?_⟩
    exact .cons (hr.mono h₂) hresults.2

theorem encodeBatch_refines (haligned : crates.BatchAligned) (hp : IsHandle places h p)
    (texts : List Bytes) (addSpecialTokens : Int32) (flags : UInt32) :
    (layout crates).Refines places
      ((contract crates).encodeBatch h texts addSpecialTokens flags)
      ((rawLibrary crates).encodeBatch p texts addSpecialTokens flags)
      (Agree fun places => List.Forall₂ (IsSlot places)) := by
  refine ffiCall_refines ?_ forall₂_isSlot_mono
  rw [bind_assoc]
  by_cases hnum : texts.length = 0
  · -- without a text there is no slot, and none is written
    obtain rfl := List.length_eq_zero_iff.mp hnum
    rw [if_pos hnum]
    refine (openHandle_refines hp).bind fun places₁ load handle _ hload => ?_
    subst hload
    rw [pure_bind]
    cases hresult : encodeInputs (asHandle load) [] [] 0 addSpecialTokens flags with
    | error abort =>
      simp only [List.map_nil, List.length_nil, hresult]
      exact Layout.Refines.ret ⟨rfl, [], rfl, .nil⟩
    | ok batch =>
      have hlength := length_of_encodeInputs haligned hresult
      obtain rfl : batch = [] := List.length_eq_zero_iff.mp hlength
      simp only [List.map_nil, List.length_nil, hresult]
      exact Layout.Refines.ret ⟨rfl, [], rfl, .nil⟩
  · rw [if_neg hnum]
    have hcleared : overwrite (List.replicate texts.length Slice.null)
        (List.replicate texts.length .null) = List.replicate texts.length .null :=
      overwrite_of_length rfl
    simp only [hcleared]
    refine (openHandle_refines hp).bind fun places₁ load handle _ hload => ?_
    subst hload
    rw [pure_bind]
    cases hresult : encodeInputs (asHandle load) (texts.map some) (texts.map List.length)
        texts.length addSpecialTokens flags with
    | error abort =>
      exact Layout.Refines.ret ⟨rfl, _, rfl, forall₂_isSlot_null places₁ texts.length⟩
    | ok batch =>
      have hlength : batch.length = texts.length := by
        rw [length_of_encodeInputs haligned hresult, List.length_take, List.length_zip,
          List.length_map, List.length_map]
        omega
      refine (handOver_refines batch).bind fun places₂ results slices _ hresults => ?_
      -- there is a box for every slot
      have hall : overwrite slices (List.replicate texts.length .null) = slices :=
        overwrite_of_length (by rw [hresults.1, hlength, List.length_replicate])
      rw [hall]
      exact Layout.Refines.ret ⟨rfl, slices, rfl, hresults.2⟩

end Calls

/-! ### Release -/

section Release

variable {h : Option Nat}

/-- A slot is given back, and cleared. -/
theorem freeSlice_refines {α : Type} {k : Sliced crates α} {r : Nat}
    (hr : places[r]? = some (.slice slice)) :
    (layout crates).Refines places (Prog.freeAs k.kind r) (freeSlice k.elem slice)
      fun _ _ slice' => slice' = .null := by
  refine Layout.Refines.free fun p resource xs hp hkind => ?_
  obtain rfl := Option.some.inj (hr.symm.trans hp)
  rw [k.eq_make hkind, k.at_eq]
  exact freeSlice_spec

theorem freeErrorMessage_refines (hr : IsSlot places r slice) :
    (layout crates).Refines places ((contract crates).freeErrorMessage r)
      ((rawLibrary crates).freeErrorMessage slice) IsSlot := by
  cases r with
  | none =>
    subst hr
    exact Layout.Refines.ret rfl
  | some r =>
    have hfree : (rawLibrary crates).freeErrorMessage slice =
        freeSlice .byte slice >>= fun message => pure message := by
      show (freeSlice .byte slice >>= fun message => pure (some message)) >>= _ = _
      rw [bind_assoc]
      rfl
    rw [hfree]
    refine (freeSlice_refines (k := Sliced.message) hr).bind fun _ _ message _ hnull => ?_
    exact Layout.Refines.ret hnull

/-- The loop that gives the results of an array back. -/
theorem freeEncodeResultsLoop_refines {results : List (Option Nat)} {slices : List Slice}
    (hresults : List.Forall₂ (IsSlot places) results slices) :
    (layout crates).Refines places (Contract.freeResults results) (freeEncodeResultsLoop slices)
      fun places' freed freed' => freed'.length = slices.length ∧
        List.Forall₂ (IsSlot places') freed freed' := by
  induction results generalizing places slices with
  | nil =>
    cases hresults
    exact Layout.Refines.ret ⟨rfl, .nil⟩
  | cons r results ih =>
    obtain ⟨slice, slices, hr, hrest, rfl⟩ := List.forall₂_cons_left_iff.mp hresults
    cases r with
    | none =>
      subst hr
      have hnull : (freeSlice .id .null : Prog crates Slice) = pure .null := if_pos rfl
      rw [freeEncodeResultsLoop, hnull, pure_bind]
      refine (ih hrest).bind fun places₂ freed freed' _ hfreed => ?_
      exact Layout.Refines.ret ⟨congrArg Nat.succ hfreed.1, .cons rfl hfreed.2⟩
    | some r =>
      refine (freeSlice_refines (k := Sliced.ids) hr).bind fun places₁ _ slice' h₁ hnull => ?_
      refine (ih (forall₂_isSlot_mono h₁ hrest)).bind fun places₂ freed freed' _ hfreed => ?_
      exact Layout.Refines.ret ⟨congrArg Nat.succ hfreed.1, .cons hnull hfreed.2⟩

theorem freeEncodeResults_refines {results : List (Option Nat)} {slices : List Slice}
    (hresults : List.Forall₂ (IsSlot places) results slices) :
    (layout crates).Refines places ((contract crates).freeEncodeResults results)
      ((rawLibrary crates).freeEncodeResults slices)
      fun places' => List.Forall₂ (IsSlot places') := by
  by_cases hzero : slices.length = 0
  · obtain rfl := List.length_eq_zero_iff.mp hzero
    cases hresults
    exact Layout.Refines.ret .nil
  · have hfree : (rawLibrary crates).freeEncodeResults slices =
        freeEncodeResultsLoop slices >>= fun freed => pure (overwrite freed slices) := by
      show tokenizersFreeEncodeResults (some slices) slices.length >>= _ = _
      rw [tokenizersFreeEncodeResults, if_neg hzero, List.take_length, bind_assoc]
      rfl
    rw [hfree, ← bind_pure ((contract crates).freeEncodeResults results)]
    refine (freeEncodeResultsLoop_refines hresults).bind fun _ freed freed' _ hfreed => ?_
    rw [overwrite_of_length hfreed.1]
    exact Layout.Refines.ret hfreed.2

theorem free_refines (hp : IsHandle places h p) :
    (layout crates).Refines places ((contract crates).free h) ((rawLibrary crates).free p)
      fun _ _ _ => True := by
  cases h with
  | none =>
    subst hp
    exact Layout.Refines.ret trivial
  | some h =>
    obtain ⟨a, ha, rfl⟩ := hp
    refine (loadWrapper_refines ha).bind fun places₁ o w h₁ hw => ?_
    refine (Sliced.free_refines (k := .text) hw.decodeStr).bind fun places₂ _ _ h₂ _ => ?_
    refine (Sliced.free_refines (k := .text) (hw.mono h₂).idToTokenResult).bind
      fun places₃ _ _ h₃ _ => ?_
    exact freeBox_refines (Layout.getElem?_mono (h₁.trans (h₂.trans h₃)) ha)

end Release

/-! ### Decoding, lookup and reading -/

section Lookup

variable {h : Option Nat}

/-- A string of a wrapper is assigned. -/
theorem assignString_refines {old : Nat} {field : Slice}
    (hold : places[old]? = some (.slice field)) (text : String) :
    (layout crates).Refines places (Contract.assignText old text) (assignString field text)
      fun places' new slice => places'[new]? = some (.slice slice) := by
  refine (Sliced.text.alloc_refines (strBytes text)).bind fun places₁ new slice h₁ hnew => ?_
  refine (Sliced.free_refines (k := .text) (Layout.getElem?_mono h₁ hold)).bind
    fun places₂ _ _ h₂ _ => ?_
  exact Layout.Refines.ret (Layout.getElem?_mono h₂ hnew)

theorem decode_refines (hp : IsHandle places h p) (ids : List UInt32)
    (skipSpecialTokens : Int32) :
    (layout crates).Refines places ((contract crates).decode h ids skipSpecialTokens)
      ((rawLibrary crates).decode p ids skipSpecialTokens) fun _ _ _ => True := by
  cases h with
  | none =>
    subst hp
    exact Layout.Refines.ret trivial
  | some h =>
    obtain ⟨a, ha, rfl⟩ := hp
    show (layout crates).Refines places _
      (tokenizersDecode (.block a) (some ids) ids.length skipSpecialTokens) _
    rw [tokenizersDecode_block ids rfl]
    refine (loadWrapper_refines ha).bind fun places₁ o w h₁ hw => ?_
    rw [hw.load]
    refine (assignString_refines hw.decodeStr _).bind fun places₂ new slice h₂ hnew => ?_
    refine store_refines (Layout.getElem?_mono (h₁.trans h₂) ha) ⟨hw.load, hnew, ?_⟩
    exact (hw.mono h₂).idToTokenResult

theorem getDecodeStr_refines (hp : IsHandle places h p) {view : Option Slice}
    (hview : Option.Rel (IsView places) t view) :
    (layout crates).Refines places ((contract crates).getDecodeStr h t)
      ((rawLibrary crates).getDecodeStr p view) fun places' => Option.Rel (IsView places') := by
  cases h with
  | none =>
    subst hp
    exact Layout.Refines.ret hview
  | some h =>
    obtain ⟨a, ha, rfl⟩ := hp
    have hview : (rawLibrary crates).getDecodeStr (.block a) view =
        loadWrapper a >>= fun w => pure (some w.decodeStr) := by
      show (loadWrapper a >>= fun w => pure (some (some w.decodeStr))) >>= _ = _
      rw [bind_assoc]
      rfl
    rw [hview]
    refine (loadWrapper_refines ha).bind fun places₁ o w _ hw => ?_
    exact Layout.Refines.ret (.some hw.decodeStr)

theorem getVocabSize_refines (hp : IsHandle places h p) :
    (layout crates).Refines places ((contract crates).getVocabSize h)
      ((rawLibrary crates).getVocabSize p) fun _ size size' => size' = size := by
  cases h with
  | none =>
    subst hp
    exact Layout.Refines.ret rfl
  | some h =>
    obtain ⟨a, ha, rfl⟩ := hp
    have hsize : (rawLibrary crates).getVocabSize (.block a) =
        loadWrapper a >>= fun w => pure (some (crates.getVocabSize w.load.tokenizer true)) := by
      show (loadWrapper a >>= fun w => pure _) >>= _ = _
      rw [bind_assoc]
      rfl
    rw [hsize]
    refine (loadWrapper_refines ha).bind fun places₁ o w _ hw => ?_
    rw [hw.load]
    exact Layout.Refines.ret rfl

theorem idToToken_refines (hp : IsHandle places h p) (id : UInt32) {view : Option Slice}
    (hview : Option.Rel (IsView places) t view) :
    (layout crates).Refines places ((contract crates).idToToken h id t)
      ((rawLibrary crates).idToToken p id view) fun places' => Option.Rel (IsView places') := by
  cases h with
  | none =>
    subst hp
    exact Layout.Refines.ret hview
  | some h =>
    obtain ⟨a, ha, rfl⟩ := hp
    have htoken : (rawLibrary crates).idToToken (.block a) id view =
        loadWrapper a >>= fun w =>
          assignString w.idToTokenResult (w.load.wrapper.tokenText id) >>= fun token =>
            Prog.store a (.wrapper { w with idToTokenResult := token }) >>= fun _ =>
              pure (some token) := by
      show (loadWrapper a >>= fun w => _) >>= _ = _
      simp only [bind_assoc, pure_bind, Option.join_some]
    rw [htoken]
    refine (loadWrapper_refines ha).bind fun places₁ o w h₁ hw => ?_
    rw [hw.load]
    refine (assignString_refines hw.idToTokenResult _).bind fun places₂ new slice h₂ hnew => ?_
    have hnext : LiesIn places₂ { o with idToTokenResult := new }
        { w with idToTokenResult := slice } := ⟨hw.load, (hw.mono h₂).decodeStr, hnew⟩
    refine (store_refines (Layout.getElem?_mono (h₁.trans h₂) ha) hnext).bind
      fun places₃ _ _ h₃ _ => ?_
    exact Layout.Refines.ret (.some (Layout.getElem?_mono h₃ hnew))

theorem tokenToId_refines (hp : IsHandle places h p) (token : Bytes) :
    (layout crates).Refines places ((contract crates).tokenToId h token)
      ((rawLibrary crates).tokenToId p token) fun _ id id' => id' = id := by
  cases h with
  | none =>
    subst hp
    exact Layout.Refines.ret rfl
  | some h =>
    obtain ⟨a, ha, rfl⟩ := hp
    have hid : (rawLibrary crates).tokenToId (.block a) token =
        loadWrapper a >>= fun w => pure (some ((TokenizersCpp.tokenizersTokenToId
          (asHandle (some w.load)) (some token) token.length (some 0)).getD 0)) := by
      show (loadWrapper a >>= fun w => _) >>= _ = _
      rw [bind_assoc]
      refine bind_congr fun w => ?_
      simp only [TokenizersCpp.tokenizersTokenToId, asHandle, Option.map_some]
      cases inputStr crates.utf8Error (some token) token.length "Token" with
      | error abort => rfl
      | ok token => rfl
    rw [hid]
    refine (loadWrapper_refines ha).bind fun places₁ o w _ hw => ?_
    rw [hw.load]
    exact Layout.Refines.ret rfl

/-- Nothing is read through a null slot. -/
theorem readSlot_refines {α : Type} {k : Sliced crates α} (hr : IsSlot places r slice) :
    (layout crates).Refines places (match r with
      | none => pure []
      | some r => Prog.loadAs k.kind r) (readSlice k.elem slice) fun _ xs ys => ys = xs := by
  cases r with
  | none =>
    subst hr
    exact Layout.Refines.ret rfl
  | some r => exact Sliced.load_refines hr

end Lookup

end Refinement

end CClient

end Raw

end TokenizersCpp
