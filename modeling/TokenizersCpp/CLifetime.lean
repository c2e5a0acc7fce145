import Mathlib.Data.List.ReduceOption
import TokenizersCpp.CClient
import TokenizersCpp.SampleLibrary

/-!
# What a C program may rely on

The contract of a step is `Allowed`: a handle is null or of a live object, what is given
back was not given back before, and what is read is still there.  **A program
whose steps are allowed is safe** (`client_safe`): over memory it has no fault, it sees what
the contract says, and memory has at most one block for each resource that was not
given back, so it is empty when all were.

A view is a pointer into a string that the library may assign at any time.  What a step can
do to the resources is said once (`Change`), and every text has one owner (`Owned`), so a
**view lasts** (`view_lasts`) until the same string of the same object is assigned, or the
object is freed, through whichever copy of its handle; no other call ends it.
-/

namespace TokenizersCpp

open Separation Traversal

namespace Raw

namespace CClient

variable {crates : Crates}

/-! ## Changes -/

/-- The two strings of an object. -/
inductive Scratch
  | decodeStr
  | idToTokenResult
deriving DecidableEq

namespace Object

/-- The text that a string has. -/
def text (o : Object crates) : Scratch → Nat
  | .decodeStr => o.decodeStr
  | .idToTokenResult => o.idToTokenResult

def assign (o : Object crates) (s : Scratch) (text : Nat) : Object crates :=
  match s with
  | .decodeStr => { o with decodeStr := text }
  | .idToTokenResult => { o with idToTokenResult := text }

@[simp] theorem text_assign_self (o : Object crates) (s : Scratch) (t : Nat) :
    (o.assign s t).text s = t := by cases s <;> rfl

theorem text_assign_of_ne (o : Object crates) {s s' : Scratch} (t : Nat) (h : s' ≠ s) :
    (o.assign s t).text s' = o.text s' := by
  cases s <;> cases s' <;> first | rfl | exact absurd rfl h

end Object

/-- One change of the resources: something is given out, an object is made, one of its
strings is assigned, it is freed, or something else is given back.  `touches` has the strings
that may be assigned or freed, and `frees` has what else may be given back. -/
inductive Change (touches : Nat → Scratch → Prop) (frees : Nat → Prop) :
    Heap (Resource crates) → Heap (Resource crates) → Prop
  | give {h h' : Heap (Resource crates)} (r : Resource crates) (hkind : r.asObject = none)
      (hblocks : h'.blocks = h.blocks.insert h.next r) : Change touches frees h h'
  | make {h h' : Heap (Resource crates)} (load : Load crates)
      (hblocks : h'.blocks = ((h.blocks.insert h.next (.text [])).insert (h.next + 1)
        (.text [])).insert (h.next + 2) (.object ⟨load, h.next, h.next + 1⟩)) :
      Change touches frees h h'
  | assign {h h' : Heap (Resource crates)} {id : Nat} {o : Object crates} {s : Scratch}
      (bytes : Bytes) (hobject : h.blocks.lookup id = some (.object o)) (htouch : touches id s)
      (hblocks : h'.blocks = ((h.blocks.insert h.next (.text bytes)).erase (o.text s)).insert id
        (.object (o.assign s h.next))) : Change touches frees h h'
  | free {h h' : Heap (Resource crates)} {id : Nat} {o : Object crates}
      (hobject : h.blocks.lookup id = some (.object o)) (htouch : ∀ s, touches id s)
      (hblocks : h'.blocks = ((h.blocks.erase (o.text .decodeStr)).erase
        (o.text .idToTokenResult)).erase id) : Change touches frees h h'
  | release {h h' : Heap (Resource crates)} {id : Nat} {r : Resource crates}
      (hlookup : h.blocks.lookup id = some r) (hkind : r.asObject = none)
      (htext : r.asText = none) (hfrees : frees id) (hblocks : h'.blocks = h.blocks.erase id) :
      Change touches frees h h'

/-- Every object has two texts of its own. -/
structure Owned (h : Heap (Resource crates)) : Prop where
  live : ∀ id o s, h.blocks.lookup id = some (.object o) →
    ∃ bytes, h.blocks.lookup (o.text s) = some (.text bytes)
  owner : ∀ id o s id' o' s', h.blocks.lookup id = some (.object o) →
    h.blocks.lookup id' = some (.object o') → o.text s = o'.text s' → id = id' ∧ s = s'

section Changes

variable {touches : Nat → Scratch → Prop} {frees : Nat → Prop} {h h' : Heap (Resource crates)}

theorem lt_next {a : Nat} {r : Resource crates} (hr : h.blocks.lookup a = some r) : a < h.next :=
  h.bounded a (Finmap.mem_of_lookup_eq_some hr)

theorem ne_of_lookup {a b : Nat} {r r' : Resource crates} (hr : h.blocks.lookup a = some r)
    (hr' : h.blocks.lookup b = some r') (hne : r ≠ r') : a ≠ b := by
  rintro rfl
  exact hne (Option.some.inj (hr.symm.trans hr'))

theorem lookup_of_insert {part : Fragment (Resource crates)} {a b : Nat} {r r' : Resource crates}
    (hne : r ≠ r') (hr : (part.insert a r').lookup b = some r) : part.lookup b = some r := by
  by_cases hb : b = a
  · rw [hb, Finmap.lookup_insert] at hr
    exact absurd (Option.some.inj hr).symm hne
  · rwa [Finmap.lookup_insert_of_ne _ hb] at hr

theorem lookup_of_erase {part : Fragment (Resource crates)} {a b : Nat} {r : Resource crates}
    (hr : (part.erase a).lookup b = some r) : b ≠ a ∧ part.lookup b = some r := by
  by_cases hb : b = a
  · rw [hb, Finmap.lookup_erase] at hr
    cases hr
  · exact ⟨hb, by rwa [Finmap.lookup_erase_ne hb] at hr⟩

/-- **What is not touched stays**: the object has the same text in this string, and the
text is as it was. -/
theorem Owned.lasts (howned : Owned h) (hchange : Change touches frees h h') {id : Nat}
    {o : Object crates} {s : Scratch} (hobject : h.blocks.lookup id = some (.object o))
    (hnot : ¬ touches id s) :
    ∃ o', h'.blocks.lookup id = some (.object o') ∧ o'.text s = o.text s ∧
      h'.blocks.lookup (o.text s) = h.blocks.lookup (o.text s) := by
  obtain ⟨bytes, htext⟩ := howned.live id o s hobject
  have hid := lt_next hobject
  have hlt := lt_next htext
  cases hchange with
  | give r hkind hblocks =>
    rw [hblocks, Finmap.lookup_insert_of_ne _ hid.ne, Finmap.lookup_insert_of_ne _ hlt.ne]
    exact ⟨o, hobject, rfl, rfl⟩
  | make load hblocks =>
    have hkept : ∀ a < h.next, h'.blocks.lookup a = h.blocks.lookup a := by
      intro a ha
      rw [hblocks, Finmap.lookup_insert_of_ne _ (by omega), Finmap.lookup_insert_of_ne _ (by omega),
        Finmap.lookup_insert_of_ne _ (by omega)]
    rw [hkept _ hid, hkept _ hlt]
    exact ⟨o, hobject, rfl, rfl⟩
  | @assign id₀ o₀ s₀ bytes₀ hobject₀ htouch hblocks =>
    obtain ⟨bytes₁, htext₀⟩ := howned.live id₀ o₀ s₀ hobject₀
    have hother : o.text s ≠ o₀.text s₀ := by
      intro heq
      obtain ⟨rfl, rfl⟩ := howned.owner _ _ _ _ _ _ hobject hobject₀ heq
      exact hnot htouch
    have hkept : h'.blocks.lookup (o.text s) = h.blocks.lookup (o.text s) := by
      rw [hblocks, Finmap.lookup_insert_of_ne _ (ne_of_lookup htext hobject₀ nofun),
        Finmap.lookup_erase_ne hother, Finmap.lookup_insert_of_ne _ hlt.ne]
    by_cases hsame : id = id₀
    · subst hsame
      obtain rfl := Resource.object.inj (Option.some.inj (hobject.symm.trans hobject₀))
      have hs : s ≠ s₀ := fun heq => hnot (heq ▸ htouch)
      refine ⟨o.assign s₀ h.next, ?_, Object.text_assign_of_ne o _ hs, hkept⟩
      rw [hblocks, Finmap.lookup_insert]
    · refine ⟨o, ?_, rfl, hkept⟩
      rw [hblocks, Finmap.lookup_insert_of_ne _ hsame,
        Finmap.lookup_erase_ne (ne_of_lookup hobject htext₀ nofun),
        Finmap.lookup_insert_of_ne _ hid.ne, hobject]
  | @free id₀ o₀ hobject₀ htouch hblocks =>
    have hne : id ≠ id₀ := fun heq => hnot (heq ▸ htouch s)
    have hkept : ∀ a, a ≠ id₀ → (∀ s₀, a ≠ o₀.text s₀) →
        h'.blocks.lookup a = h.blocks.lookup a := by
      intro a ha htexts
      rw [hblocks, Finmap.lookup_erase_ne ha, Finmap.lookup_erase_ne (htexts _),
        Finmap.lookup_erase_ne (htexts _)]
    refine ⟨o, ?_, rfl, hkept _ (ne_of_lookup htext hobject₀ nofun) fun s₀ heq => ?_⟩
    · rw [hkept _ hne fun s₀ => ?_, hobject]
      obtain ⟨bytes₀, htext₀⟩ := howned.live id₀ o₀ s₀ hobject₀
      exact ne_of_lookup hobject htext₀ nofun
    · exact hne (howned.owner _ _ _ _ _ _ hobject hobject₀ heq).1
  | @release id₀ r hlookup hkind htextKind hfrees hblocks =>
    rw [hblocks, Finmap.lookup_erase_ne (ne_of_lookup hobject hlookup (by rintro rfl; cases hkind)),
      Finmap.lookup_erase_ne (ne_of_lookup htext hlookup (by rintro rfl; cases htextKind))]
    exact ⟨o, hobject, rfl, rfl⟩

/-- **A string after a change** has the text that it had, or a new one, and a new text is in
one string. -/
theorem Owned.strings (howned : Owned h) (hchange : Change touches frees h h') :
    ∃ owner : Nat → Nat × Scratch, ∀ id o s, h'.blocks.lookup id = some (.object o) →
      (∃ o₀, h.blocks.lookup id = some (.object o₀) ∧ o.text s = o₀.text s ∧
        h'.blocks.lookup (o.text s) = h.blocks.lookup (o.text s)) ∨
      ((∃ bytes, h'.blocks.lookup (o.text s) = some (.text bytes)) ∧ h.next ≤ o.text s ∧
        owner (o.text s) = (id, s)) := by
  -- an object that was there keeps what a change with these strings does not touch
  have hold : ∀ (touches' : Nat → Scratch → Prop), Change touches' frees h h' → ∀ id o o₀ s,
      h'.blocks.lookup id = some (.object o) → h.blocks.lookup id = some (.object o₀) →
      ¬ touches' id s → o.text s = o₀.text s ∧
        h'.blocks.lookup (o.text s) = h.blocks.lookup (o.text s) := by
    intro touches' hchange' id o o₀ s hid hid₀ hnot
    obtain ⟨o', hid', htext, hlookup⟩ := howned.lasts hchange' hid₀ hnot
    obtain rfl := Resource.object.inj (Option.some.inj (hid.symm.trans hid'))
    exact ⟨htext, htext ▸ hlookup⟩
  cases hchange with
  | give r hkind hblocks =>
    refine ⟨fun _ => (0, .decodeStr), fun id o s hid => Or.inl ?_⟩
    have hid₀ := lookup_of_insert (by rintro rfl; cases hkind) (hblocks ▸ hid)
    exact ⟨o, hid₀, hold (fun _ _ => False) (.give r hkind hblocks) id o o s hid hid₀ not_false⟩
  | make load hblocks =>
    refine ⟨fun t => (h.next + 2, if t = h.next then .decodeStr else .idToTokenResult),
      fun id o s hid => ?_⟩
    by_cases hnew : id = h.next + 2
    · subst hnew
      rw [hblocks, Finmap.lookup_insert] at hid
      obtain rfl := Resource.object.inj (Option.some.inj hid)
      refine Or.inr ?_
      cases s with
      | decodeStr =>
        refine ⟨⟨[], ?_⟩, le_refl _, by simp [Object.text]⟩
        show h'.blocks.lookup h.next = _
        rw [hblocks, Finmap.lookup_insert_of_ne _ (by omega),
          Finmap.lookup_insert_of_ne _ (by omega), Finmap.lookup_insert]
      | idToTokenResult =>
        refine ⟨⟨[], ?_⟩, Nat.le_succ _, by simp [Object.text]⟩
        show h'.blocks.lookup (h.next + 1) = _
        rw [hblocks, Finmap.lookup_insert_of_ne _ (by omega), Finmap.lookup_insert]
    · have hid₀ : h.blocks.lookup id = some (.object o) := by
        rw [hblocks, Finmap.lookup_insert_of_ne _ hnew] at hid
        exact lookup_of_insert (by nofun) (lookup_of_insert (by nofun) hid)
      exact Or.inl ⟨o, hid₀,
        hold (fun _ _ => False) (.make load hblocks) id o o s hid hid₀ not_false⟩
  | @assign id₀ o₀ s₀ bytes₀ hobject₀ htouch hblocks =>
    refine ⟨fun _ => (id₀, s₀), fun id o s hid => ?_⟩
    have hminimal : Change (fun id s => id = id₀ ∧ s = s₀) frees h h' :=
      .assign bytes₀ hobject₀ ⟨rfl, rfl⟩ hblocks
    obtain ⟨bytes₁, htext₀⟩ := howned.live id₀ o₀ s₀ hobject₀
    by_cases hsame : id = id₀
    · subst hsame
      by_cases hs : s = s₀
      · -- the string that was assigned
        subst hs
        rw [hblocks, Finmap.lookup_insert] at hid
        obtain rfl := Resource.object.inj (Option.some.inj hid)
        rw [Object.text_assign_self]
        refine Or.inr ⟨⟨bytes₀, ?_⟩, le_refl _, rfl⟩
        rw [hblocks, Finmap.lookup_insert_of_ne _ (lt_next hobject₀).ne',
          Finmap.lookup_erase_ne (lt_next htext₀).ne', Finmap.lookup_insert]
      · exact Or.inl ⟨o₀, hobject₀, hold _ hminimal id o o₀ s hid hobject₀ fun h => hs h.2⟩
    · have hid₀ : h.blocks.lookup id = some (.object o) := by
        rw [hblocks, Finmap.lookup_insert_of_ne _ hsame] at hid
        exact lookup_of_insert (by nofun) (lookup_of_erase hid).2
      exact Or.inl ⟨o, hid₀, hold _ hminimal id o o s hid hid₀ fun h => hsame h.1⟩
  | @free id₀ o₀ hobject₀ htouch hblocks =>
    refine ⟨fun _ => (0, .decodeStr), fun id o s hid => Or.inl ?_⟩
    have hminimal : Change (fun id _ => id = id₀) frees h h' :=
      .free hobject₀ (fun _ => rfl) hblocks
    obtain ⟨hsame, hrest⟩ := lookup_of_erase (hblocks ▸ hid)
    have hid₀ := (lookup_of_erase (lookup_of_erase hrest).2).2
    exact ⟨o, hid₀, hold _ hminimal id o o s hid hid₀ hsame⟩
  | @release id₀ r hlookup hkind htextKind hfrees hblocks =>
    refine ⟨fun _ => (0, .decodeStr), fun id o s hid => Or.inl ?_⟩
    have hid₀ := (lookup_of_erase (hblocks ▸ hid)).2
    exact ⟨o, hid₀, hold (fun _ _ => False) (.release hlookup hkind htextKind hfrees hblocks)
      id o o s hid hid₀ not_false⟩

/-- **Every change keeps the owners apart.** -/
theorem Owned.change (howned : Owned h) (hchange : Change touches frees h h') : Owned h' := by
  obtain ⟨owner, hstrings⟩ := howned.strings hchange
  have hlt : ∀ {id : Nat} {o : Object crates} (s : Scratch),
      h.blocks.lookup id = some (.object o) → o.text s < h.next := by
    intro id o s hid
    obtain ⟨bytes, htext⟩ := howned.live id o s hid
    exact lt_next htext
  constructor
  · intro id o s hid
    rcases hstrings id o s hid with ⟨o₀, hid₀, htext, hlookup⟩ | ⟨hnew, -⟩
    · rw [hlookup, htext]
      exact howned.live id o₀ s hid₀
    · exact hnew
  · intro id o s id' o' s' hid hid' heq
    rcases hstrings id o s hid with ⟨o₀, hid₀, htext, -⟩ | ⟨-, hge, howner⟩
    · rcases hstrings id' o' s' hid' with ⟨o₀', hid₀', htext', -⟩ | ⟨-, hge', -⟩
      · exact howned.owner _ _ _ _ _ _ hid₀ hid₀' (htext.symm.trans (heq.trans htext'))
      · have := hlt s hid₀
        omega
    · rcases hstrings id' o' s' hid' with ⟨o₀', hid₀', htext', -⟩ | ⟨-, -, howner'⟩
      · have := hlt s' hid₀'
        omega
      · exact Prod.mk.inj (howner.symm.trans (heq ▸ howner'))

/-- Any number of changes. -/
abbrev Changes (touches : Nat → Scratch → Prop) (frees : Nat → Prop) :
    Heap (Resource crates) → Heap (Resource crates) → Prop :=
  Relation.ReflTransGen (Change touches frees)

theorem Owned.changes (howned : Owned h) (hchanges : Changes touches frees h h') : Owned h' := by
  induction hchanges with
  | refl => exact howned
  | tail _ hchange ih => exact ih.change hchange

/-- What no change touches stays. -/
theorem Owned.lasts_changes (howned : Owned h) (hchanges : Changes touches frees h h') {id : Nat}
    {o : Object crates} {s : Scratch} (hobject : h.blocks.lookup id = some (.object o))
    (hnot : ¬ touches id s) :
    ∃ o', h'.blocks.lookup id = some (.object o') ∧ o'.text s = o.text s ∧
      h'.blocks.lookup (o.text s) = h.blocks.lookup (o.text s) := by
  induction hchanges with
  | refl => exact ⟨o, hobject, rfl, rfl⟩
  | tail hchanges hchange ih =>
    obtain ⟨o₁, hobject₁, htext₁, hlookup₁⟩ := ih
    obtain ⟨o₂, hobject₂, htext₂, hlookup₂⟩ :=
      (howned.changes hchanges).lasts hchange hobject₁ hnot
    refine ⟨o₂, hobject₂, htext₂.trans htext₁, ?_⟩
    rw [← hlookup₁, ← htext₁, hlookup₂]

end Changes

/-! ## What the entry points change -/

/-- A handle is null, or of an object. -/
def Live (h : Heap (Resource crates)) : Option Nat → Prop
  | none => True
  | some id => ∃ o, h.blocks.lookup id = some (.object o)

section Contract

variable {touches : Nat → Scratch → Prop} {frees : Nat → Prop} {h : Heap (Resource crates)}
  {handle : Option Nat}

theorem loadObject_goes {id : Nat} {o : Object crates}
    (hobject : h.blocks.lookup id = some (.object o)) :
    Prog.Goes (Prog.loadAs Resource.asObject id) h fun o' h' => o' = o ∧ h' = h :=
  .loadAs _ hobject rfl

/-- A call that only looks at its object. -/
theorem look_goes {α : Type} {c : Option Nat → Contract.Prog crates α} {null : α}
    {value : Object crates → α} (hnull : c none = pure null)
    (hvalue : ∀ id, c (some id) =
      Prog.loadAs Resource.asObject id >>= fun o => pure (value o)) (hlive : Live h handle) :
    Prog.Goes (c handle) h fun _ h' => h' = h := by
  cases handle with
  | none =>
    rw [hnull]
    exact .ret rfl
  | some id =>
    obtain ⟨o, hobject⟩ := hlive
    rw [hvalue]
    exact (loadObject_goes hobject).bind fun _ _ heq => .ret heq.2

theorem openObject_goes (hlive : Live h handle) :
    Prog.Goes (Contract.openObject handle) h fun _ h' => h' = h :=
  look_goes rfl (fun _ => rfl) hlive

theorem call_goes {α S : Type} {compute : Contract.Prog crates (Rust α)}
    {give : α → Contract.Prog crates S} {null : S}
    (hcompute : Prog.Goes compute h fun _ h' => h' = h)
    (hgive : ∀ a, Prog.Goes (give a) h fun _ h' => Changes touches frees h h') :
    Prog.Goes (Contract.call compute give null) h fun _ h' => Changes touches frees h h' := by
  refine hcompute.bind fun result h' heq => ?_
  subst heq
  cases result with
  | ok a => exact (hgive a).bind fun _ h' hchanges => .ret hchanges
  | error abort =>
    exact Prog.Goes.alloc.bind fun _ _ ⟨_, _, hblocks⟩ => .ret (.single (.give _ rfl hblocks))

theorem giveIds_goes (ids : List UInt32) :
    Prog.Goes (Contract.giveIds ids) h fun _ h' => Changes touches frees h h' :=
  Prog.Goes.alloc.bind fun _ _ ⟨_, _, hblocks⟩ => .ret (.single (.give _ rfl hblocks))

theorem giveBatch_goes (batch : List (List UInt32)) :
    Prog.Goes (Contract.giveBatch batch) h fun _ h' => Changes touches frees h h' := by
  induction batch generalizing h with
  | nil => exact .ret .refl
  | cons ids batch ih =>
    refine Prog.Goes.bind (Q := fun _ h₁ => Changes touches frees h h₁) (giveIds_goes ids)
      fun _ h₁ hfirst => ?_
    exact ih.bind fun _ h₂ hrest => .ret (hfirst.trans hrest)

theorem giveObject_goes (w : TokenizerWrapper crates) :
    Prog.Goes (Contract.giveObject w) h fun _ h' => Changes touches frees h h' := by
  refine Prog.Goes.alloc.bind fun decodeStr h₁ ⟨hd, hn₁, hb₁⟩ => ?_
  refine Prog.Goes.alloc.bind fun idToTokenResult h₂ ⟨hi, hn₂, hb₂⟩ => ?_
  refine Prog.Goes.alloc.bind fun _ h₃ ⟨_, _, hb₃⟩ => .ret (.single (.make (Load.of w) ?_))
  rw [hb₃, hb₂, hb₁, hn₂, hn₁, hd, hi, hn₁]

/-- A new text is there, and the old one is not. -/
def Replaced (h : Heap (Resource crates)) (old : Nat) (new : Nat) (h' : Heap (Resource crates)) :
    Prop :=
  new = h.next ∧ ∃ bytes, h'.blocks = (h.blocks.insert h.next (.text bytes)).erase old

theorem assignText_goes {old : Nat} {bytes : Bytes}
    (hold : h.blocks.lookup old = some (.text bytes)) (text : String) :
    Prog.Goes (Contract.assignText old text) h (Replaced h old) := by
  refine Prog.Goes.alloc.bind fun new h₁ ⟨hnew, _, hb₁⟩ => ?_
  have hold₁ : h₁.blocks.lookup old = some (.text bytes) := by
    rw [hb₁, Finmap.lookup_insert_of_ne _ (lt_next hold).ne, hold]
  refine (Prog.Goes.freeAs Resource.asText hold₁ rfl).bind fun _ h₂ hb₂ => ?_
  refine .ret ⟨hnew, strBytes text, ?_⟩
  rw [hb₂, hb₁]

/-- The object gets its new text. -/
theorem store_goes (howned : Owned h) {id : Nat} {o : Object crates} {s : Scratch}
    (hobject : h.blocks.lookup id = some (.object o)) (htouch : touches id s) {new : Nat}
    {h₁ : Heap (Resource crates)} (hreplaced : Replaced h (o.text s) new h₁) :
    Prog.Goes (Prog.store id (.object (o.assign s new))) h₁ fun _ h' =>
      Changes touches frees h h' := by
  obtain ⟨rfl, bytes, hb₁⟩ := hreplaced
  obtain ⟨old, hold⟩ := howned.live id o s hobject
  have hobject₁ : h₁.blocks.lookup id = some (.object o) := by
    rw [hb₁, Finmap.lookup_erase_ne (ne_of_lookup hobject hold nofun),
      Finmap.lookup_insert_of_ne _ (lt_next hobject).ne, hobject]
  refine (Prog.Goes.store hobject₁).post fun _ h' hb => .single (.assign bytes hobject htouch ?_)
  rw [hb, hb₁]

theorem decode_goes (howned : Owned h) (hlive : Live h handle)
    (htouch : ∀ id, handle = some id → touches id .decodeStr) (ids : List UInt32)
    (skipSpecialTokens : Int32) :
    Prog.Goes ((contract crates).decode handle ids skipSpecialTokens) h fun _ h' =>
      Changes touches frees h h' := by
  cases handle with
  | none => exact .ret .refl
  | some id =>
    obtain ⟨o, hobject⟩ := hlive
    obtain ⟨old, hold⟩ := howned.live id o .decodeStr hobject
    refine (loadObject_goes hobject).bind fun o' h' ⟨ho, hh⟩ => ?_
    subst ho hh
    refine (assignText_goes hold _).bind fun new h₁ hreplaced => ?_
    exact store_goes howned (s := .decodeStr) hobject (htouch id rfl) hreplaced

theorem idToToken_goes (howned : Owned h) (hlive : Live h handle)
    (htouch : ∀ id, handle = some id → touches id .idToTokenResult) (token : UInt32)
    (view : Option Nat) :
    Prog.Goes ((contract crates).idToToken handle token view) h fun _ h' =>
      Changes touches frees h h' := by
  cases handle with
  | none => exact .ret .refl
  | some id =>
    obtain ⟨o, hobject⟩ := hlive
    obtain ⟨old, hold⟩ := howned.live id o .idToTokenResult hobject
    refine (loadObject_goes hobject).bind fun o' h' ⟨ho, hh⟩ => ?_
    subst ho hh
    refine (assignText_goes hold _).bind fun new h₁ hreplaced => ?_
    exact (store_goes howned (s := .idToTokenResult) hobject (htouch id rfl) hreplaced).bind
      fun _ _ hchanges => .ret hchanges

theorem free_goes (howned : Owned h) (hlive : Live h handle)
    (htouch : ∀ id, handle = some id → ∀ s, touches id s) :
    Prog.Goes ((contract crates).free handle) h fun _ h' => Changes touches frees h h' := by
  cases handle with
  | none => exact .ret .refl
  | some id =>
    obtain ⟨o, hobject⟩ := hlive
    obtain ⟨d, hd⟩ := howned.live id o .decodeStr hobject
    obtain ⟨i, hi⟩ := howned.live id o .idToTokenResult hobject
    have hapart : o.text .idToTokenResult ≠ o.text .decodeStr := fun heq =>
      absurd (howned.owner _ _ _ _ _ _ hobject hobject heq).2 nofun
    refine (loadObject_goes hobject).bind fun o' h' ⟨ho, hh⟩ => ?_
    subst ho hh
    refine (Prog.Goes.freeAs Resource.asText hd rfl).bind fun _ h₁ hb₁ => ?_
    have hi₁ : h₁.blocks.lookup (o'.text .idToTokenResult) = some (.text i) := by
      rw [hb₁, Finmap.lookup_erase_ne hapart, hi]
    refine (Prog.Goes.freeAs Resource.asText hi₁ rfl).bind fun _ h₂ hb₂ => ?_
    have hobject₂ : h₂.blocks.lookup id = some (.object o') := by
      rw [hb₂, Finmap.lookup_erase_ne (ne_of_lookup hobject hi nofun), hb₁,
        Finmap.lookup_erase_ne (ne_of_lookup hobject hd nofun), hobject]
    have hbox : Prog.Goes (Prog.freeAs Resource.asObject id) h₂ fun _ h₃ =>
        h₃.blocks = h₂.blocks.erase id := .freeAs _ hobject₂ rfl
    refine hbox.post fun _ h₃ hb₃ => .single (.free hobject (htouch id rfl) ?_)
    rw [hb₃, hb₂, hb₁]

/-- Lists of ids that can be given back: they are there, and each has one slot. -/
structure Releasable (h : Heap (Resource crates)) (results : List (Option Nat)) : Prop where
  nodup : results.reduceOption.Nodup
  there : ∀ r ∈ results.reduceOption, ∃ ids, h.blocks.lookup r = some (.ids ids)

theorem freeResults_goes {results : List (Option Nat)} (hresults : Releasable h results)
    (hfrees : ∀ r ∈ results.reduceOption, frees r) :
    Prog.Goes (Contract.freeResults results) h fun _ h' => Changes touches frees h h' := by
  induction results generalizing h with
  | nil => exact .ret .refl
  | cons r results ih =>
    obtain ⟨hnodup, hthere⟩ := hresults
    cases r with
    | none => exact (ih ⟨hnodup, hthere⟩ hfrees).bind fun _ _ hchanges => .ret hchanges
    | some r =>
      rw [List.reduceOption_cons_of_some] at hnodup hthere hfrees
      obtain ⟨hnot, hnodup⟩ := List.nodup_cons.mp hnodup
      obtain ⟨ids, hids⟩ := hthere r List.mem_cons_self
      refine (Prog.Goes.freeAs Resource.asIds hids rfl).bind fun _ h₁ hb₁ => ?_
      have hrest : Releasable h₁ results := by
        refine ⟨hnodup, fun r' hr' => ?_⟩
        rw [hb₁, Finmap.lookup_erase_ne fun heq : r' = r => hnot (heq ▸ hr')]
        exact hthere r' (List.mem_cons_of_mem r hr')
      have hlater : ∀ r' ∈ results.reduceOption, frees r' := fun r' hr' =>
        hfrees r' (List.mem_cons_of_mem r hr')
      refine (ih hrest hlater).bind fun _ h₂ hchanges => .ret ?_
      exact Relation.ReflTransGen.head (.release hids rfl rfl (hfrees r List.mem_cons_self) hb₁)
        hchanges

theorem readIds_goes {results : List (Option Nat)}
    (hthere : ∀ r ∈ results.reduceOption, ∃ ids, h.blocks.lookup r = some (.ids ids)) :
    Prog.Goes (results.mapM (contract crates).readIds) h fun _ h' => h' = h := by
  induction results with
  | nil => exact .ret rfl
  | cons r results ih =>
    rw [List.mapM_cons]
    cases r with
    | none =>
      refine Prog.Goes.bind (Q := fun _ h' => h' = h) (.ret rfl) fun _ h' heq => ?_
      subst heq
      exact (ih hthere).bind fun _ _ heq => .ret heq
    | some r =>
      rw [List.reduceOption_cons_of_some] at hthere
      obtain ⟨ids, hids⟩ := hthere r List.mem_cons_self
      refine (Prog.Goes.loadAs Resource.asIds hids rfl).bind fun _ h' ⟨_, hh⟩ => ?_
      subst hh
      exact (ih fun r' hr' => hthere r' (List.mem_cons_of_mem r hr')).bind fun _ _ heq => .ret heq

end Contract

/-! ## Steps and programs -/

variable {Var : Type} [DecidableEq Var]

section Programs

variable {vars : Vars Var (Option Nat) (Option Nat) Nat} {h : Heap (Resource crates)}

/-- **The contract of a step.** -/
def Allowed (vars : Vars Var (Option Nat) (Option Nat) Nat) (h : Heap (Resource crates)) :
    Command Var → Prop
  | .encode v _ _ _ _ _ => Live h (vars.handle v)
  | .encodeBatch v _ _ _ _ _ => Live h (vars.handle v)
  | .decode v _ _ => Live h (vars.handle v)
  | .getDecodeStr v _ => Live h (vars.handle v)
  | .getVocabSize v => Live h (vars.handle v)
  | .idToToken v _ _ => Live h (vars.handle v)
  | .tokenToId v _ => Live h (vars.handle v)
  | .free v => Live h (vars.handle v)
  | .freeEncodeResults r => Releasable h (vars.results r)
  | .readResults r =>
      ∀ id ∈ (vars.results r).reduceOption, ∃ ids, h.blocks.lookup id = some (.ids ids)
  | .freeErrorMessage e =>
      ∀ id, vars.error e = some id → ∃ text, h.blocks.lookup id = some (.message text)
  | .readError e =>
      ∀ id, vars.error e = some id → ∃ text, h.blocks.lookup id = some (.message text)
  | .readView v => ∃ t text, vars.view v = some t ∧ h.blocks.lookup t = some (.text text)
  | _ => True

/-- The strings that a step assigns or frees. -/
def Touches (vars : Vars Var (Option Nat) (Option Nat) Nat) :
    Command Var → Nat → Scratch → Prop
  | .decode v _ _, id, s => vars.handle v = some id ∧ s = .decodeStr
  | .idToToken v _ _, id, s => vars.handle v = some id ∧ s = .idToTokenResult
  | .free v, id, _ => vars.handle v = some id
  | _, _, _ => False

/-- What a step gives back, apart from objects. -/
def Frees (vars : Vars Var (Option Nat) (Option Nat) Nat) : Command Var → Nat → Prop
  | .freeEncodeResults r, id => id ∈ (vars.results r).reduceOption
  | .freeErrorMessage e, id => vars.error e = some id
  | _, _ => False

/-- **A step** that is allowed goes on, and changes what it touches and frees. -/
theorem step_goes (howned : Owned h) {command : Command Var} (hallowed : Allowed vars h command) :
    Prog.Goes (step (contract crates) vars command) h fun _ h' =>
      Changes (Touches vars command) (Frees vars command) h h' := by
  have hkeep : ∀ {touches : Nat → Scratch → Prop} {frees : Nat → Prop}
      {h' : Heap (Resource crates)}, h' = h → Changes touches frees h h' := by
    rintro touches frees h' rfl
    exact .refl
  cases command with
  | newFromStr v e json =>
    refine Prog.Goes.bind (call_goes (Prog.Goes.ret rfl) fun w => giveObject_goes w)
      fun _ _ hchanges => .ret hchanges
  | byteLevelBpeNewFromStr v e vocab merges addedTokens =>
    refine Prog.Goes.bind (call_goes (Prog.Goes.ret rfl) fun w => giveObject_goes w)
      fun _ _ hchanges => .ret hchanges
  | encode v r e text addSpecialTokens flags =>
    have hopen := (openObject_goes hallowed).bind (R := fun _ h' => h' = h)
      (f := fun load => pure (encodeInput (asHandle load) (some text) text.length
        addSpecialTokens flags)) fun _ _ heq => .ret heq
    exact (call_goes hopen fun ids => giveIds_goes ids).bind fun _ _ hchanges => .ret hchanges
  | encodeBatch v r e texts addSpecialTokens flags =>
    have hopen := (openObject_goes hallowed).bind (R := fun _ h' => h' = h)
      (f := fun load => pure (encodeInputs (asHandle load) (texts.map some)
        (texts.map List.length) texts.length addSpecialTokens flags)) fun _ _ heq => .ret heq
    exact (call_goes hopen fun batch => giveBatch_goes batch).bind
      fun _ _ hchanges => .ret hchanges
  | freeEncodeResults r =>
    exact Prog.Goes.bind (freeResults_goes hallowed fun _ hr => hr)
      fun _ _ hchanges => .ret hchanges
  | freeErrorMessage e =>
    have hfree : Prog.Goes ((contract crates).freeErrorMessage (vars.error e)) h fun _ h' =>
        Changes (Touches vars (.freeErrorMessage e)) (Frees vars (.freeErrorMessage e)) h h' := by
      cases herror : vars.error e with
      | none => exact .ret .refl
      | some id =>
        obtain ⟨text, htext⟩ := hallowed id herror
        refine (Prog.Goes.freeAs Resource.asMessage htext rfl).bind fun _ h₁ hb₁ => .ret ?_
        exact .single (.release htext rfl rfl herror hb₁)
    exact hfree.bind fun _ _ hchanges => .ret hchanges
  | decode v ids skipSpecialTokens =>
    exact (decode_goes howned hallowed (fun id hid => ⟨hid, rfl⟩) ids skipSpecialTokens).bind
      fun _ _ hchanges => .ret hchanges
  | getDecodeStr v w =>
    exact (look_goes (c := fun handle => (contract crates).getDecodeStr handle (vars.view w)) rfl
      (fun _ => rfl) hallowed).bind fun _ _ heq => .ret (hkeep heq)
  | getVocabSize v =>
    exact (look_goes (c := fun handle => (contract crates).getVocabSize handle) rfl
      (fun _ => rfl) hallowed).bind fun _ _ heq => .ret (hkeep heq)
  | idToToken v w id =>
    exact (idToToken_goes howned hallowed (fun id hid => ⟨hid, rfl⟩) id (vars.view w)).bind
      fun _ _ hchanges => .ret hchanges
  | tokenToId v token =>
    exact (look_goes (c := fun handle => (contract crates).tokenToId handle token) rfl
      (fun _ => rfl) hallowed).bind fun _ _ heq => .ret (hkeep heq)
  | free v =>
    exact (free_goes howned hallowed fun id hid _ => hid).bind fun _ _ hchanges => .ret hchanges
  | readResults r =>
    exact (readIds_goes hallowed).bind fun _ _ heq => .ret (hkeep heq)
  | readError e =>
    have hread : Prog.Goes ((contract crates).readMessage (vars.error e)) h
        fun _ h' => h' = h := by
      cases herror : vars.error e with
      | none => exact .ret rfl
      | some id =>
        obtain ⟨text, htext⟩ := hallowed id herror
        exact (Prog.Goes.loadAs Resource.asMessage htext rfl).post fun _ _ heq => heq.2
    exact hread.bind fun _ _ heq => .ret (hkeep heq)
  | readView v =>
    obtain ⟨t, text, hview, htext⟩ := hallowed
    rw [step, hview]
    exact (Prog.Goes.loadAs Resource.asText htext rfl).bind fun _ _ heq => .ret (hkeep heq.2)
  | copyHandle v w => exact .ret .refl
  | copyResults v w => exact .ret .refl
  | copyError v w => exact .ret .refl
  | copyView v w => exact .ret .refl

/-- This is true of each step of a program, in the state in which it is taken. -/
def Along (P : Vars Var (Option Nat) (Option Nat) Nat → Heap (Resource crates) →
    Command Var → Prop) :
    List (Command Var) → Vars Var (Option Nat) (Option Nat) Nat → Heap (Resource crates) → Prop
  | [], _, _ => True
  | command :: commands, vars, h => P vars h command ∧
      ∀ reply vars' h', step (contract crates) vars command h = some ((reply, vars'), h') →
        Along P commands vars' h'

variable {P : Vars Var (Option Nat) (Option Nat) Nat → Heap (Resource crates) → Command Var → Prop}

theorem run_cons {command : Command Var} {commands : List (Command Var)}
    {replies : List Reply} {vars' : Vars Var (Option Nat) (Option Nat) Nat}
    {h' : Heap (Resource crates)} :
    run (contract crates) (command :: commands) vars h = some ((replies, vars'), h') ↔
      ∃ reply vars₁ h₁ rest, step (contract crates) vars command h = some ((reply, vars₁), h₁) ∧
        run (contract crates) commands vars₁ h₁ = some ((rest, vars'), h') ∧
        replies = reply :: rest := by
  rw [run, Prog.bind_eq_some]
  constructor
  · rintro ⟨⟨reply, vars₁⟩, h₁, hstep, hrest⟩
    obtain ⟨⟨rest, vars₂⟩, h₂, hrun, hret⟩ := Prog.bind_eq_some.mp hrest
    obtain ⟨heq, rfl⟩ := Prod.mk.inj (Option.some.inj hret)
    obtain ⟨rfl, rfl⟩ := Prod.mk.inj heq
    exact ⟨reply, vars₁, h₁, rest, hstep, hrun, rfl⟩
  · rintro ⟨reply, vars₁, h₁, rest, hstep, hrun, rfl⟩
    exact ⟨(reply, vars₁), h₁, hstep, Prog.bind_eq_some.mpr ⟨(rest, vars'), h', hrun, rfl⟩⟩

/-- **A program** whose steps are allowed goes on. -/
theorem run_goes (howned : Owned h) {commands : List (Command Var)}
    (hallowed : Along Allowed commands vars h) :
    Prog.Goes (run (contract crates) commands vars) h fun _ h' => Owned h' := by
  induction commands generalizing vars h with
  | nil => exact .ret howned
  | cons command commands ih =>
    obtain ⟨⟨reply, vars'⟩, h', hstep, hchanges⟩ := step_goes howned hallowed.1
    obtain ⟨⟨rest, vars''⟩, h'', hrun, howned'⟩ :=
      ih (howned.changes hchanges) (hallowed.2 reply vars' h' hstep)
    exact ⟨_, h'', run_cons.mpr ⟨reply, vars', h', rest, hstep, hrun, rfl⟩, howned'⟩

/-- **A string that no step touches** has its text at the end. -/
theorem run_lasts (howned : Owned h) {commands : List (Command Var)}
    (hallowed : Along Allowed commands vars h) {id : Nat} {s : Scratch}
    (hspares : Along (fun vars _ command => ¬ Touches vars command id s) commands vars h)
    {o : Object crates} (hobject : h.blocks.lookup id = some (.object o)) {replies : List Reply}
    {vars' : Vars Var (Option Nat) (Option Nat) Nat} {h' : Heap (Resource crates)}
    (hrun : run (contract crates) commands vars h = some ((replies, vars'), h')) :
    h'.blocks.lookup (o.text s) = h.blocks.lookup (o.text s) := by
  induction commands generalizing vars h o replies with
  | nil =>
    obtain ⟨-, rfl⟩ := Prod.mk.inj (Option.some.inj hrun)
    rfl
  | cons command commands ih =>
    obtain ⟨reply, vars₁, h₁, rest, hstep, hrun, -⟩ := run_cons.mp hrun
    obtain ⟨done, h₁', hstep', hchanges⟩ := step_goes howned hallowed.1
    obtain ⟨-, rfl⟩ := Prod.mk.inj (Option.some.inj (hstep.symm.trans hstep'))
    obtain ⟨o₁, hobject₁, htext, hlookup⟩ := howned.lasts_changes hchanges hobject hspares.1
    have hrest := ih (howned.changes hchanges) (hallowed.2 _ _ _ hstep)
      (hspares.2 _ _ _ hstep) hobject₁ hrun
    rw [← hlookup, ← htext, hrest]

end Programs

/-! ## Main results -/

/-- No resource has more than one block. -/
theorem layout_le_atMost (places : List Place) (p : Place) (r : Resource crates) :
    (layout crates).At places p r ≤ Assn.atMost 1 := by
  cases p with
  | box a =>
    cases r with
    | object o => exact Assn.ex_le fun w => Assn.fact_mul_le fun _ => Assn.pointsTo_le_atMost
    | _ => exact Assn.fact_le fun hfalse => absurd hfalse id
  | slice slice =>
    cases r with
    | object o => exact Assn.fact_le fun hfalse => absurd hfalse id
    | _ => exact holds_le_atMost

theorem owned_empty : Owned (Heap.empty : Heap (Resource crates)) := by
  have hnone : ∀ a, (Heap.empty : Heap (Resource crates)).blocks.lookup a = none := fun a =>
    Finmap.lookup_empty a
  constructor
  · intro id o s hid
    rw [hnone] at hid
    cases hid
  · intro id o s id' o' s' hid
    rw [hnone] at hid
    cases hid

section Results

/-- **A program that keeps the contract is safe.**  Over memory it has no fault, and it sees
what the contract says.  Memory has at most one block for each resource that was not given
back. -/
theorem client_safe (haligned : crates.BatchAligned) {commands : List (Command Var)}
    (hallowed : Along Allowed commands Vars.none (Heap.empty : Heap (Resource crates))) :
    ∃ replies vars h vars' m,
      run (contract crates) commands Vars.none Heap.empty = some ((replies, vars), h) ∧
      run (rawLibrary crates) commands Vars.null Heap.empty = some ((replies, vars'), m) ∧
      m.blocks.keys.card ≤ h.blocks.keys.card := by
  obtain ⟨⟨replies, vars⟩, h, hrun, -⟩ := run_goes owned_empty hallowed
  obtain ⟨⟨replies', vars'⟩, m, places, hraw, -, ⟨hreplies, -⟩, hm⟩ :=
    (run_refines haligned areVars_initial commands).run hrun Layout.heapAt_empty
  obtain rfl : replies' = replies := hreplies
  exact ⟨_, vars, h, vars', m, hrun, hraw, Layout.heapAt_le_atMost layout_le_atMost _ hm⟩

/-- A text that `from_str` accepts makes an object. -/
theorem step_newFromStr {json : String} {w : TokenizerWrapper crates}
    (hjson : TokenizerWrapper.fromStr crates json = .ok w)
    (vars : Vars Var (Option Nat) (Option Nat) Nat) (v e : Var) :
    step (contract crates) vars (.newFromStr v e (strBytes json)) =
      (Contract.giveObject w >>= fun handle => pure (.status .ok, { vars with
        handle := Function.update vars.handle v handle
        error := Function.update vars.error e none })) := by
  show (Contract.call _ _ _ >>= _) = _
  rw [inputStr_strBytes, ok_bind, hjson]
  rfl

theorem along_cons {P : Vars Var (Option Nat) (Option Nat) Nat → Heap (Resource crates) →
      Command Var → Prop} {command : Command Var} {commands : List (Command Var)}
    {vars vars' : Vars Var (Option Nat) (Option Nat) Nat} {h h' : Heap (Resource crates)}
    {reply : Reply}
    (hstep : step (contract crates) vars command h = some ((reply, vars'), h'))
    (hcommand : P vars h command) (hrest : Along P commands vars' h') :
    Along P (command :: commands) vars h := by
  refine ⟨hcommand, fun reply₁ vars₁ h₁ hstep₁ => ?_⟩
  obtain ⟨heq, rfl⟩ := Prod.mk.inj (Option.some.inj (hstep.symm.trans hstep₁))
  obtain ⟨-, rfl⟩ := Prod.mk.inj heq
  exact hrest

/-- Loads, decodes and takes a view. -/
def sampleStart : List (Command Bool) :=
  [.newFromStr true true (strBytes SampleLibrary.plainJson), .decode true [0, 1] 0,
    .getDecodeStr true true]

/-- Reads the view, and frees the object through a copy of its handle. -/
theorem client_safe_sample : ∃ replies vars h vars' m,
    run (contract SampleLibrary.crates) (sampleStart ++ [.readView true, .copyHandle false true,
      .free false]) Vars.none Heap.empty = some ((replies, vars), h) ∧
    run (rawLibrary SampleLibrary.crates) (sampleStart ++ [.readView true,
      .copyHandle false true, .free false]) Vars.null Heap.empty = some ((replies, vars'), m) ∧
    m.blocks.keys.card ≤ h.blocks.keys.card := by
  have hjson := SampleLibrary.fromStr_wrapperOf SampleLibrary.fromStr_plain
  refine client_safe SampleLibrary.view_documented.padded.batchAligned ?_
  refine along_cons (by rw [step_newFromStr hjson]; rfl) trivial ?_
  refine along_cons rfl ⟨_, rfl⟩ (along_cons rfl ⟨_, rfl⟩ ?_)
  refine along_cons rfl ⟨_, _, rfl, rfl⟩ (along_cons rfl trivial ?_)
  exact along_cons rfl ⟨_, rfl⟩ trivial

/-- **A view lasts.**  It is read, over memory, with the text that it had, after any steps that
neither assign this string of this object nor free the object. -/
theorem view_lasts (haligned : crates.BatchAligned) {before after : List (Command Var)}
    (hbefore : Along Allowed before Vars.none (Heap.empty : Heap (Resource crates)))
    {replies : List Reply} {vars : Vars Var (Option Nat) (Option Nat) Nat}
    {h : Heap (Resource crates)}
    (hrun : run (contract crates) before Vars.none Heap.empty = some ((replies, vars), h))
    (hafter : Along Allowed after vars h) {v : Var} {a : Nat} {o : Object crates} {s : Scratch}
    (hview : vars.view v = some (o.text s)) (hobject : h.blocks.lookup a = some (.object o))
    (hspares : Along (fun vars _ command => ¬ Touches vars command a s) after vars h) :
    ∃ vars' m view text done m',
      run (rawLibrary crates) before Vars.null Heap.empty = some ((replies, vars'), m) ∧
      vars'.view v = some view ∧ (readSlice .byte view m).map Prod.fst = some text ∧
      run (rawLibrary crates) after vars' m = some (done, m') ∧
      (readSlice .byte view m').map Prod.fst = some text := by
  obtain ⟨done, h', hrun', howned⟩ := run_goes owned_empty hbefore
  obtain ⟨-, rfl⟩ := Prod.mk.inj (Option.some.inj (hrun.symm.trans hrun'))
  obtain ⟨text, htext⟩ := howned.live a o s hobject
  obtain ⟨⟨replies₁, vars'⟩, m, places, hraw, -, ⟨hreplies, hvars⟩, hm⟩ :=
    (run_refines haligned areVars_initial before).run hrun Layout.heapAt_empty
  obtain rfl : replies₁ = replies := hreplies
  -- the view points to the place of the text, which stays its place
  obtain ⟨view, hslice, hplace⟩ : ∃ view, vars'.view v = some view ∧
      places[o.text s]? = some (.slice view) := by
    have hrel := hvars.view v
    rw [hview] at hrel
    cases hslice : vars'.view v with
    | none => rw [hslice] at hrel; cases hrel
    | some view =>
      rw [hslice] at hrel
      cases hrel with
      | some hplace => exact ⟨view, rfl, hplace⟩
  have hread : ∀ {places : List Place} {h : Heap (Resource crates)} {m : Heap (Block crates)},
      places[o.text s]? = some (.slice view) → h.blocks.lookup (o.text s) = some (.text text) →
      (layout crates).HeapAt places h m.blocks →
      (readSlice .byte view m).map Prod.fst = some text := by
    intro places h m hplace htext hm
    have hload : Prog.loadAs Resource.asText (o.text s) h = some (text, h) :=
      Prog.loadAs_eq_some.mpr ⟨_, htext, rfl, rfl⟩
    obtain ⟨text', m', -, hrun, -, rfl, -⟩ :=
      (Sliced.load_refines (k := Sliced.text) hplace).run hload hm
    exact Option.map_eq_some_iff.mpr ⟨_, hrun, rfl⟩
  obtain ⟨⟨replies₂, vars₂⟩, h₂, hrun₂, -⟩ := run_goes howned hafter
  obtain ⟨done, m', places', hraw', hplaces, -, hm'⟩ :=
    (run_refines haligned hvars after).run hrun₂ hm
  refine ⟨vars', m, view, text, done, m', hraw, hslice, hread hplace htext hm, hraw', ?_⟩
  refine hread (Layout.getElem?_mono hplaces hplace) ?_ hm'
  rw [run_lasts howned hafter hspares hobject hrun₂, htext]

/-- The view outlives a lookup and an encode on the same object. -/
theorem view_lasts_sample : ∃ vars' m view text done m',
    run (rawLibrary SampleLibrary.crates) sampleStart Vars.null Heap.empty =
      some (([.status .ok, .done, .done], vars'), m) ∧
    vars'.view true = some view ∧ (readSlice .byte view m).map Prod.fst = some text ∧
    run (rawLibrary SampleLibrary.crates) [.idToToken true false 1,
      .encode true true true (strBytes "ab") 0 0] vars' m = some (done, m') ∧
    (readSlice .byte view m').map Prod.fst = some text := by
  have hjson := SampleLibrary.fromStr_wrapperOf SampleLibrary.fromStr_plain
  have hmake := congrFun (step_newFromStr hjson (Vars.none : Vars Bool _ _ _) true true)
    Heap.empty
  have hallowed : Along Allowed sampleStart Vars.none
      (Heap.empty : Heap (Resource SampleLibrary.crates)) :=
    along_cons (hmake.trans rfl) trivial (along_cons rfl ⟨_, rfl⟩ (along_cons rfl ⟨_, rfl⟩ trivial))
  refine view_lasts SampleLibrary.view_documented.padded.batchAligned hallowed
    (run_cons.mpr ⟨_, _, _, _, hmake.trans rfl, rfl, rfl⟩) (a := 2)
    (s := .decodeStr) ?_ rfl rfl ?_
  · exact along_cons rfl ⟨_, rfl⟩ (along_cons rfl ⟨_, rfl⟩ trivial)
  · exact along_cons rfl (fun h => absurd h.2 nofun) (along_cons rfl id trivial)

end Results

end CClient

end Raw

end TokenizersCpp
