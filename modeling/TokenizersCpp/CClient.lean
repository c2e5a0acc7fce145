import TokenizersCpp.CContract

/-!
# C programs over the entry points

A C program has variables for handles, arrays of results, error messages and views.
It calls the entry points, copies its variables, and reads the memory that it was
given (`run`).  The same program runs over both libraries of `CContract`.

Where the program goes on over the contract it goes on over memory (`run_refines`): it sees
the same statuses, ids, texts and messages, and memory has what the resources are, and
nothing else.
-/

namespace TokenizersCpp

open Separation

namespace Raw

namespace CClient

/-! ## Programs -/

/-- The variables of a program. -/
structure Vars (Var Handle Slot View : Type) where
  handle : Var → Handle
  results : Var → List Slot
  error : Var → Slot
  view : Var → Option View

/-- One step of a program; the variables come first. -/
inductive Command (Var : Type)
  | newFromStr (h e : Var) (json : Bytes)
  | byteLevelBpeNewFromStr (h e : Var) (vocab merges addedTokens : Bytes)
  | encode (h r e : Var) (text : Bytes) (addSpecialTokens : Int32) (flags : UInt32)
  | encodeBatch (h r e : Var) (texts : List Bytes) (addSpecialTokens : Int32) (flags : UInt32)
  | freeEncodeResults (r : Var)
  | freeErrorMessage (e : Var)
  | decode (h : Var) (ids : List UInt32) (skipSpecialTokens : Int32)
  | getDecodeStr (h v : Var)
  | getVocabSize (h : Var)
  | idToToken (h v : Var) (id : UInt32)
  | tokenToId (h : Var) (token : Bytes)
  | free (h : Var)
  | readResults (r : Var)
  | readError (e : Var)
  | readView (v : Var)
  | copyHandle (h h' : Var)
  | copyResults (r r' : Var)
  | copyError (e e' : Var)
  | copyView (v v' : Var)

/-- What a program sees of a step. -/
inductive Reply
  | status (status : TokenizerStatus)
  | size (size : Option Nat)
  | id (id : Option Int32)
  | rows (rows : List (List UInt32))
  | text (text : Bytes)
  | done
deriving DecidableEq

section Programs

variable {Block Handle Slot View Var : Type} [DecidableEq Var]

/-- One step, over a library.  A variable that is read before it was written is a fault. -/
def step (lib : Library Block Handle Slot View) (vars : Vars Var Handle Slot View) :
    Command Var → Separation.Prog Block (Reply × Vars Var Handle Slot View)
  | .newFromStr h e json => do
      let (status, handle, error) ← lib.newFromStr json
      return (.status status, { vars with
        handle := Function.update vars.handle h handle
        error := Function.update vars.error e error })
  | .byteLevelBpeNewFromStr h e vocab merges addedTokens => do
      let (status, handle, error) ← lib.byteLevelBpeNewFromStr vocab merges addedTokens
      return (.status status, { vars with
        handle := Function.update vars.handle h handle
        error := Function.update vars.error e error })
  | .encode h r e text addSpecialTokens flags => do
      let (status, result, error) ← lib.encode (vars.handle h) text addSpecialTokens flags
      return (.status status, { vars with
        results := Function.update vars.results r [result]
        error := Function.update vars.error e error })
  | .encodeBatch h r e texts addSpecialTokens flags => do
      let (status, results, error) ←
        lib.encodeBatch (vars.handle h) texts addSpecialTokens flags
      return (.status status, { vars with
        results := Function.update vars.results r results
        error := Function.update vars.error e error })
  | .freeEncodeResults r => do
      let results ← lib.freeEncodeResults (vars.results r)
      return (.done, { vars with results := Function.update vars.results r results })
  | .freeErrorMessage e => do
      let error ← lib.freeErrorMessage (vars.error e)
      return (.done, { vars with error := Function.update vars.error e error })
  | .decode h ids skipSpecialTokens => do
      lib.decode (vars.handle h) ids skipSpecialTokens
      return (.done, vars)
  | .getDecodeStr h v => do
      let view ← lib.getDecodeStr (vars.handle h) (vars.view v)
      return (.done, { vars with view := Function.update vars.view v view })
  | .getVocabSize h => do
      let size ← lib.getVocabSize (vars.handle h)
      return (.size size, vars)
  | .idToToken h v id => do
      let view ← lib.idToToken (vars.handle h) id (vars.view v)
      return (.done, { vars with view := Function.update vars.view v view })
  | .tokenToId h token => do
      let id ← lib.tokenToId (vars.handle h) token
      return (.id id, vars)
  | .free h => do
      lib.free (vars.handle h)
      return (.done, vars)
  | .readResults r => do
      let rows ← (vars.results r).mapM lib.readIds
      return (.rows rows, vars)
  | .readError e => do
      let text ← lib.readMessage (vars.error e)
      return (.text text, vars)
  | .readView v =>
      match vars.view v with
      | none => Prog.fault
      | some view => do
          let text ← lib.readView view
          return (.text text, vars)
  | .copyHandle h h' =>
      return (.done, { vars with handle := Function.update vars.handle h (vars.handle h') })
  | .copyResults r r' =>
      return (.done, { vars with results := Function.update vars.results r (vars.results r') })
  | .copyError e e' =>
      return (.done, { vars with error := Function.update vars.error e (vars.error e') })
  | .copyView v v' =>
      return (.done, { vars with view := Function.update vars.view v (vars.view v') })

/-- A program. -/
def run (lib : Library Block Handle Slot View) :
    List (Command Var) → Vars Var Handle Slot View →
      Separation.Prog Block (List Reply × Vars Var Handle Slot View)
  | [], vars => return ([], vars)
  | command :: commands, vars => do
      let (reply, vars) ← step lib vars command
      let (replies, vars) ← run lib commands vars
      return (reply :: replies, vars)

end Programs

variable {crates : Crates} {Var : Type} [DecidableEq Var]

/-- The start of a program over memory. -/
def Vars.null : Vars Var Pointer Slice Slice :=
  ⟨fun _ => .null, fun _ => [], fun _ => .null, fun _ => none⟩

/-- The start of a program over the contract. -/
def Vars.none : Vars Var (Option Nat) (Option Nat) Nat :=
  ⟨fun _ => .none, fun _ => [], fun _ => .none, fun _ => .none⟩

/-! ## The two libraries -/

/-- The variables of the two sides name the same resources. -/
structure AreVars (places : List Place) (vars : Vars Var (Option Nat) (Option Nat) Nat)
    (vars' : Vars Var Pointer Slice Slice) : Prop where
  handle : ∀ v, IsHandle places (vars.handle v) (vars'.handle v)
  results : ∀ v, List.Forall₂ (IsSlot places) (vars.results v) (vars'.results v)
  error : ∀ v, IsSlot places (vars.error v) (vars'.error v)
  view : ∀ v, Option.Rel (IsView places) (vars.view v) (vars'.view v)

/-- A step agrees on both sides. -/
structure Agrees (places : List Place)
    (done : Reply × Vars Var (Option Nat) (Option Nat) Nat)
    (done' : Reply × Vars Var Pointer Slice Slice) : Prop where
  reply : done'.1 = done.1
  vars : AreVars places done.2 done'.2

section Refinement

variable {places places' : List Place} {vars : Vars Var (Option Nat) (Option Nat) Nat}
  {vars' : Vars Var Pointer Slice Slice}

theorem rel_view_mono (hplaces : places <+: places') {t : Option Nat} {view : Option Slice}
    (h : Option.Rel (IsView places) t view) : Option.Rel (IsView places') t view := by
  cases h with
  | none => exact .none
  | some h => exact .some (Layout.getElem?_mono hplaces h)

omit [DecidableEq Var] in
theorem AreVars.mono (hplaces : places <+: places') (h : AreVars places vars vars') :
    AreVars places' vars vars' where
  handle v := (h.handle v).mono hplaces
  results v := forall₂_isSlot_mono hplaces (h.results v)
  error v := (h.error v).mono hplaces
  view v := rel_view_mono hplaces (h.view v)

/-- A variable is written on both sides. -/
theorem forall_update {α β : Type} {rel : α → β → Prop} {f : Var → α} {g : Var → β}
    (hall : ∀ v, rel (f v) (g v)) {a : α} {b : β} (h : rel a b) (w : Var) :
    ∀ v, rel (Function.update f w a v) (Function.update g w b v) := by
  intro v
  by_cases hv : v = w
  · rw [hv, Function.update_self, Function.update_self]
    exact h
  · rw [Function.update_of_ne hv, Function.update_of_ne hv]
    exact hall v

/-- The results of an array are read one by one. -/
theorem readResults_refines {results : List (Option Nat)} {slices : List Slice}
    (h : List.Forall₂ (IsSlot places) results slices) :
    (layout crates).Refines places (results.mapM (contract crates).readIds)
      (slices.mapM (rawLibrary crates).readIds) fun _ rows rows' => rows' = rows := by
  induction results generalizing places slices with
  | nil =>
    cases h
    exact Layout.Refines.ret rfl
  | cons r results ih =>
    obtain ⟨slice, slices, hr, hrest, rfl⟩ := List.forall₂_cons_left_iff.mp h
    rw [List.mapM_cons, List.mapM_cons]
    refine (readSlot_refines (k := Sliced.ids) hr).bind fun places₁ row row' h₁ hrow => ?_
    refine (ih (forall₂_isSlot_mono h₁ hrest)).bind fun places₂ rows rows' _ hrows => ?_
    exact Layout.Refines.ret (by rw [hrow, hrows])

/-- **A step** over memory refines the one over the contract. -/
theorem step_refines (haligned : crates.BatchAligned) (h : AreVars places vars vars')
    (command : Command Var) :
    (layout crates).Refines places (step (contract crates) vars command)
      (step (rawLibrary crates) vars' command) Agrees := by
  cases command with
  | newFromStr v e json =>
    refine (newFromStr_refines json).bind fun places₁ done done' h₁ hdone => ?_
    refine Layout.Refines.ret ⟨congrArg Reply.status hdone.status, ?_⟩
    exact { h.mono h₁ with
      handle := forall_update (h.mono h₁).handle hdone.output v
      error := forall_update (h.mono h₁).error hdone.message e }
  | byteLevelBpeNewFromStr v e vocab merges addedTokens =>
    refine (byteLevelBpeNewFromStr_refines vocab merges addedTokens).bind
      fun places₁ done done' h₁ hdone => ?_
    refine Layout.Refines.ret ⟨congrArg Reply.status hdone.status, ?_⟩
    exact { h.mono h₁ with
      handle := forall_update (h.mono h₁).handle hdone.output v
      error := forall_update (h.mono h₁).error hdone.message e }
  | encode v r e text addSpecialTokens flags =>
    refine (encode_refines (h.handle v) text addSpecialTokens flags).bind
      fun places₁ done done' h₁ hdone => ?_
    refine Layout.Refines.ret ⟨congrArg Reply.status hdone.status, ?_⟩
    exact { h.mono h₁ with
      results := forall_update (h.mono h₁).results (.cons hdone.output .nil) r
      error := forall_update (h.mono h₁).error hdone.message e }
  | encodeBatch v r e texts addSpecialTokens flags =>
    refine (encodeBatch_refines haligned (h.handle v) texts addSpecialTokens flags).bind
      fun places₁ done done' h₁ hdone => ?_
    refine Layout.Refines.ret ⟨congrArg Reply.status hdone.status, ?_⟩
    exact { h.mono h₁ with
      results := forall_update (h.mono h₁).results hdone.output r
      error := forall_update (h.mono h₁).error hdone.message e }
  | freeEncodeResults r =>
    refine (freeEncodeResults_refines (h.results r)).bind fun places₁ _ _ h₁ hfreed => ?_
    refine Layout.Refines.ret ⟨rfl, ?_⟩
    exact { h.mono h₁ with results := forall_update (h.mono h₁).results hfreed r }
  | freeErrorMessage e =>
    refine (freeErrorMessage_refines (h.error e)).bind fun places₁ _ _ h₁ hfreed => ?_
    refine Layout.Refines.ret ⟨rfl, ?_⟩
    exact { h.mono h₁ with error := forall_update (h.mono h₁).error hfreed e }
  | decode v ids skipSpecialTokens =>
    refine (decode_refines (h.handle v) ids skipSpecialTokens).bind fun places₁ _ _ h₁ _ => ?_
    exact Layout.Refines.ret ⟨rfl, h.mono h₁⟩
  | getDecodeStr v w =>
    refine (getDecodeStr_refines (h.handle v) (h.view w)).bind fun places₁ _ _ h₁ hview => ?_
    refine Layout.Refines.ret ⟨rfl, ?_⟩
    exact { h.mono h₁ with view := forall_update (h.mono h₁).view hview w }
  | getVocabSize v =>
    refine (getVocabSize_refines (h.handle v)).bind fun places₁ _ _ h₁ hsize => ?_
    exact Layout.Refines.ret ⟨congrArg Reply.size hsize, h.mono h₁⟩
  | idToToken v w id =>
    refine (idToToken_refines (h.handle v) id (h.view w)).bind fun places₁ _ _ h₁ hview => ?_
    refine Layout.Refines.ret ⟨rfl, ?_⟩
    exact { h.mono h₁ with view := forall_update (h.mono h₁).view hview w }
  | tokenToId v token =>
    refine (tokenToId_refines (h.handle v) token).bind fun places₁ _ _ h₁ hid => ?_
    exact Layout.Refines.ret ⟨congrArg Reply.id hid, h.mono h₁⟩
  | free v =>
    refine (free_refines (h.handle v)).bind fun places₁ _ _ h₁ _ => ?_
    exact Layout.Refines.ret ⟨rfl, h.mono h₁⟩
  | readResults r =>
    refine (readResults_refines (h.results r)).bind fun places₁ _ _ h₁ hrows => ?_
    exact Layout.Refines.ret ⟨congrArg Reply.rows hrows, h.mono h₁⟩
  | readError e =>
    refine (readSlot_refines (k := Sliced.message) (h.error e)).bind fun places₁ _ _ h₁ htext => ?_
    exact Layout.Refines.ret ⟨congrArg Reply.text htext, h.mono h₁⟩
  | readView v =>
    have hview := h.view v
    rw [step, step]
    cases htext : vars.view v with
    | none => exact Layout.Refines.fault
    | some t =>
      cases hslice : vars'.view v with
      | none => rw [htext, hslice] at hview; cases hview
      | some slice =>
        rw [htext, hslice] at hview
        obtain ⟨hview⟩ := hview
        refine (Sliced.load_refines (k := Sliced.text) hview).bind fun places₁ _ _ h₁ htext => ?_
        exact Layout.Refines.ret ⟨congrArg Reply.text htext, h.mono h₁⟩
  | copyHandle v w =>
    exact Layout.Refines.ret ⟨rfl, { h with handle := forall_update h.handle (h.handle w) v }⟩
  | copyResults v w =>
    exact Layout.Refines.ret ⟨rfl, { h with results := forall_update h.results (h.results w) v }⟩
  | copyError v w =>
    exact Layout.Refines.ret ⟨rfl, { h with error := forall_update h.error (h.error w) v }⟩
  | copyView v w =>
    exact Layout.Refines.ret ⟨rfl, { h with view := forall_update h.view (h.view w) v }⟩

/-- **A program** over memory refines the one over the contract. -/
theorem run_refines (haligned : crates.BatchAligned) (h : AreVars places vars vars')
    (commands : List (Command Var)) :
    (layout crates).Refines places (run (contract crates) commands vars)
      (run (rawLibrary crates) commands vars') fun places' done done' =>
        done'.1 = done.1 ∧ AreVars places' done.2 done'.2 := by
  induction commands generalizing places vars vars' with
  | nil => exact Layout.Refines.ret ⟨rfl, h⟩
  | cons command commands ih =>
    refine (step_refines haligned h command).bind fun places₁ done done' _ hdone => ?_
    refine (ih hdone.vars).bind fun places₂ rest rest' _ hrest => ?_
    exact Layout.Refines.ret ⟨by rw [hdone.reply, hrest.1], hrest.2⟩

omit [DecidableEq Var] in
theorem areVars_initial : AreVars [] (Vars.none : Vars Var _ _ _) Vars.null :=
  ⟨fun _ => rfl, fun _ => .nil, fun _ => rfl, fun _ => .none⟩

end Refinement

end CClient

end Raw

end TokenizersCpp
