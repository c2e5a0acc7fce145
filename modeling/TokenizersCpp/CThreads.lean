import Mathlib.Algebra.Order.BigOperators.Group.Finset
import TokenizersCpp.CLifetime

/-!
# Threads over the entry points

A program sets up some objects, and then threads go on from there, each with a copy of the
variables.  They take turns in any order, a call at a time (`runThreads`).

The threads may share the objects of the setup, and everything else that it left, as long
as none changes it (`Spares`): encoding, `tokenizers_token_to_id`,
`tokenizers_get_vocab_size` and reading do not, decoding and `tokenizers_id_to_token` do.
With what it makes itself a thread may do what the contract allows.  Then the **threads are
isolated** (`threads_isolated`): in every interleaving each of them sees what it would see
alone.
-/

namespace TokenizersCpp

open Separation Separation.Assn

namespace Raw

namespace CClient

variable {crates : Crates} {Var : Type} [DecidableEq Var]

/-! ## What a thread leaves alone -/

/-- The step changes nothing of what was there at the start. -/
structure Spares (h₀ : Heap (Resource crates)) (vars : Vars Var (Option Nat) (Option Nat) Nat)
    (command : Command Var) : Prop where
  touches : ∀ id s, Touches vars command id s → id ∉ h₀.blocks
  frees : ∀ id, Frees vars command id → id ∉ h₀.blocks

/-- A state of a thread: all of the start is there, and new objects have new texts. -/
structure Beside (h₀ h : Heap (Resource crates)) : Prop where
  keeps : Layout.Keeps h₀ h
  apart : ∀ id o s, h.blocks.lookup id = some (.object o) → id ∉ h₀.blocks →
    o.text s ∉ h₀.blocks

section Beside

variable {h₀ h h' : Heap (Resource crates)} {touches : Nat → Scratch → Prop}
  {frees : Nat → Prop}

theorem Beside.refl : Beside h h where
  keeps _ _ hr := hr
  apart _ _ _ hid hnew := absurd (Finmap.mem_of_lookup_eq_some hid) hnew

theorem Beside.lt_next (hbeside : Beside h₀ h) {a : Nat} (ha : a ∈ h₀.blocks) : a < h.next := by
  obtain ⟨r, hr⟩ := Finmap.mem_iff.mp ha
  exact CClient.lt_next (hbeside.keeps a r hr)

/-- **A change** of what is new leaves the start alone. -/
theorem Beside.change (howned : Owned h) (hbeside : Beside h₀ h)
    (hchange : Change touches frees h h') (htouches : ∀ id s, touches id s → id ∉ h₀.blocks)
    (hfrees : ∀ id, frees id → id ∉ h₀.blocks) : Beside h₀ h' := by
  constructor
  · intro a r hr
    have ha : a ∈ h₀.blocks := Finmap.mem_of_lookup_eq_some hr
    have hlt := hbeside.lt_next ha
    have hnot : ∀ {b}, b ∉ h₀.blocks → a ≠ b := fun hb heq => hb (heq ▸ ha)
    rw [← hbeside.keeps a r hr]
    cases hchange with
    | give r hkind hblocks => rw [hblocks, Finmap.lookup_insert_of_ne _ hlt.ne]
    | make load hblocks =>
      rw [hblocks, Finmap.lookup_insert_of_ne _ (by omega),
        Finmap.lookup_insert_of_ne _ (by omega), Finmap.lookup_insert_of_ne _ (by omega)]
    | assign bytes hobject htouch hblocks =>
      have hid := htouches _ _ htouch
      rw [hblocks, Finmap.lookup_insert_of_ne _ (hnot hid),
        Finmap.lookup_erase_ne (hnot (hbeside.apart _ _ _ hobject hid)),
        Finmap.lookup_insert_of_ne _ hlt.ne]
    | free hobject htouch hblocks =>
      have hid := htouches _ .decodeStr (htouch _)
      rw [hblocks, Finmap.lookup_erase_ne (hnot hid),
        Finmap.lookup_erase_ne (hnot (hbeside.apart _ _ _ hobject hid)),
        Finmap.lookup_erase_ne (hnot (hbeside.apart _ _ _ hobject hid))]
    | release hlookup hkind htext hfree hblocks =>
      rw [hblocks, Finmap.lookup_erase_ne (hnot (hfrees _ hfree))]
  · intro id o s hid hnew
    obtain ⟨owner, hstrings⟩ := howned.strings hchange
    rcases hstrings id o s hid with ⟨o₀, hid₀, htext, -⟩ | ⟨-, hge, -⟩
    · rw [htext]
      exact hbeside.apart id o₀ s hid₀ hnew
    · intro hmem
      have hlt := hbeside.lt_next hmem
      omega

theorem Beside.changes (howned : Owned h) (hbeside : Beside h₀ h)
    (hchanges : Changes touches frees h h') (htouches : ∀ id s, touches id s → id ∉ h₀.blocks)
    (hfrees : ∀ id, frees id → id ∉ h₀.blocks) : Beside h₀ h' := by
  induction hchanges with
  | refl => exact hbeside
  | tail hchanges hchange ih =>
    exact ih.change (howned.changes hchanges) hchange htouches hfrees

end Beside

/-- What the setup left stays where it is. -/
theorem settled {places₀ : List Place} {h₀ : Heap (Resource crates)} (howned : Owned h₀)
    (hlength : places₀.length = h₀.next) : (layout crates).Settled places₀ h₀ where
  length := hlength
  at_le {places a p r} hplaces hr := by
    cases r with
    | object o =>
      have hback : ∀ s, places₀[o.text s]? = places[o.text s]? := by
        intro s
        obtain ⟨bytes, htext⟩ := howned.live a o s hr
        exact Layout.getElem?_of_lt hplaces (hlength ▸ lt_next htext)
      cases p with
      | slice slice => exact le_refl _
      | box b =>
        refine ex_le fun w => fact_mul_le fun hw => le_ex w (le_fact_mul ?_ (le_refl _))
        exact ⟨hw.load, (hback .decodeStr).trans hw.decodeStr,
          (hback .idToTokenResult).trans hw.idToTokenResult⟩
    | _ => cases p <;> exact le_refl _

/-! ## Threads -/

section Threads

variable {Thread α : Type} [DecidableEq Thread]

/-- What is of one thread. -/
def ofThread (i : Thread) (turns : List (Thread × α)) : List α :=
  turns.filterMap fun turn => if turn.1 = i then some turn.2 else none

@[simp] theorem ofThread_cons_self (i : Thread) (x : α) (turns : List (Thread × α)) :
    ofThread i ((i, x) :: turns) = x :: ofThread i turns := by
  simp [ofThread]

theorem ofThread_cons_of_ne {i j : Thread} (h : j ≠ i) (x : α) (turns : List (Thread × α)) :
    ofThread j ((i, x) :: turns) = ofThread j turns := by
  simp [ofThread, h.symm]

/-- The threads take turns, each with variables of its own. -/
def runThreads {Block Handle Slot View : Type} (lib : Library Block Handle Slot View) :
    List (Thread × Command Var) → (Thread → Vars Var Handle Slot View) →
      Separation.Prog Block (List (Thread × Reply) × (Thread → Vars Var Handle Slot View))
  | [], vars => return ([], vars)
  | (i, command) :: turns, vars => do
      let (reply, vars') ← step lib (vars i) command
      let (replies, vars) ← runThreads lib turns (Function.update vars i vars')
      return ((i, reply) :: replies, vars)

/-- A thread that runs alone over the contract: its variables, and its resources. -/
abbrev Solo (crates : Crates) (Var : Type) :=
  Vars Var (Option Nat) (Option Nat) Nat × Heap (Resource crates)

/-- The thread has these variables over memory, and what it has added to the start. -/
def ThreadAt (places₀ : List Place) (h₀ : Heap (Resource crates)) (solo : Solo crates Var)
    (vars : Vars Var Pointer Slice Slice) : Assn crates :=
  ex fun places =>
    fact (places₀ <+: places ∧ places.length = solo.2.next ∧ AreVars places solo.1 vars) *
      (layout crates).NewAt places h₀ solo.2

/-- The thread is allowed each step, and changes nothing of the start. -/
def Follows (h₀ : Heap (Resource crates)) (commands : List (Command Var))
    (solo : Solo crates Var) : Prop :=
  Along (fun vars h command => Allowed vars h command ∧ Spares h₀ vars command) commands
    solo.1 solo.2

variable {places₀ : List Place} {h₀ : Heap (Resource crates)}

/-- **A turn** over memory is the step of the thread alone. -/
theorem turn_spec (haligned : crates.BatchAligned)
    (hsettled : (layout crates).Settled places₀ h₀) {solo : Solo crates Var}
    {vars : Vars Var Pointer Slice Slice} {command : Command Var} {reply : Reply}
    {vars₁ : Vars Var (Option Nat) (Option Nat) Nat} {h₁ : Heap (Resource crates)}
    (hkeeps : Layout.Keeps h₀ solo.2) (hkeeps₁ : Layout.Keeps h₀ h₁)
    (hstep : step (contract crates) solo.1 command solo.2 = some ((reply, vars₁), h₁)) :
    Triple ((layout crates).PartAt places₀ h₀.blocks * ThreadAt places₀ h₀ solo vars)
      (step (rawLibrary crates) vars command) fun done => fact (done.1 = reply) *
        ((layout crates).PartAt places₀ h₀.blocks *
          ThreadAt places₀ h₀ (vars₁, h₁) done.2) := by
  rw [mul_comm, ThreadAt, ex_mul]
  refine Triple.of_ex fun places => ?_
  rw [mul_assoc]
  refine Triple.of_fact fun ⟨hplaces, hlength, hvars⟩ => ?_
  rw [mul_comm]
  refine ((step_refines haligned hvars command).beside hsettled hplaces hlength hkeeps hstep
    hkeeps₁).post fun done => ex_le fun places' => fact_mul_le fun ⟨hgrown, hlength', hdone⟩ => ?_
  refine le_fact_mul hdone.reply (mul_le (le_refl _) (le_ex places' ?_))
  exact le_fact_mul ⟨hplaces.trans hgrown, hlength', hdone.vars⟩ (le_refl _)

/-- **Turns** over memory are the steps of each thread alone, whatever their order. -/
theorem turns_spec [Fintype Thread] (haligned : crates.BatchAligned)
    (hsettled : (layout crates).Settled places₀ h₀) {turns : List (Thread × Command Var)}
    {solos : Thread → Solo crates Var} (howned : ∀ i, Owned (solos i).2)
    (hbeside : ∀ i, Beside h₀ (solos i).2)
    (hfollows : ∀ i, Follows h₀ (ofThread i turns) (solos i)) :
    ∃ (replies : List (Thread × Reply)) (solos' : Thread → Solo crates Var),
      (∀ i, run (contract crates) (ofThread i turns) (solos i).1 (solos i).2 =
        some ((ofThread i replies, (solos' i).1), (solos' i).2)) ∧
      ∀ vars, Triple ((layout crates).PartAt places₀ h₀.blocks *
          ∏ i, ThreadAt places₀ h₀ (solos i) (vars i))
        (runThreads (rawLibrary crates) turns vars) fun done => fact (done.1 = replies) *
          ((layout crates).PartAt places₀ h₀.blocks *
            ∏ i, ThreadAt places₀ h₀ (solos' i) (done.2 i)) := by
  induction turns generalizing solos with
  | nil => exact ⟨[], solos, fun _ => rfl, fun _ => Triple.ret_of (le_fact_mul rfl (le_refl _))⟩
  | cons turn turns ih =>
    obtain ⟨i, command⟩ := turn
    have hi := hfollows i
    rw [ofThread_cons_self] at hi
    obtain ⟨⟨hallowed, hspares⟩, hrest⟩ := hi
    obtain ⟨⟨reply, vars₁⟩, h₁, hstep, hchanges⟩ := step_goes (howned i) hallowed
    have hbeside₁ := (hbeside i).changes (howned i) hchanges hspares.touches hspares.frees
    -- the thread whose turn it is goes on, and the others are where they were
    have hothers : ∀ j ≠ i, Follows h₀ (ofThread j turns) (solos j) := by
      intro j hj
      have hfollow := hfollows j
      rwa [ofThread_cons_of_ne hj] at hfollow
    obtain ⟨replies, solos', hruns, htriple⟩ :=
      @ih (Function.update solos i (vars₁, h₁))
        ((Function.forall_update_iff solos (p := fun _ solo => Owned solo.2)).mpr
          ⟨(howned i).changes hchanges, fun j _ => howned j⟩)
        ((Function.forall_update_iff solos (p := fun _ solo => Beside h₀ solo.2)).mpr
          ⟨hbeside₁, fun j _ => hbeside j⟩)
        ((Function.forall_update_iff solos
          (p := fun j solo => Follows h₀ (ofThread j turns) solo)).mpr
          ⟨hrest reply vars₁ h₁ hstep, hothers⟩)
    refine ⟨(i, reply) :: replies, solos', fun j => ?_, fun vars => ?_⟩
    · have hrun := hruns j
      by_cases hj : j = i
      · subst hj
        rw [Function.update_self] at hrun
        rw [ofThread_cons_self, ofThread_cons_self]
        exact run_cons.mpr ⟨reply, vars₁, h₁, _, hstep, hrun, rfl⟩
      · rw [Function.update_of_ne hj] at hrun
        rw [ofThread_cons_of_ne hj, ofThread_cons_of_ne hj]
        exact hrun
    · have hsplit := prod_update (ThreadAt places₀ h₀) solos vars i (solos i) (vars i)
      rw [Function.update_eq_self, Function.update_eq_self] at hsplit
      rw [hsplit, ← mul_assoc]
      refine (turn_spec haligned hsettled (hbeside i).keeps hbeside₁.keeps hstep).step
        fun done => ?_
      rw [mul_assoc]
      refine Triple.of_fact fun hreply => ?_
      rw [mul_assoc, ← prod_update (ThreadAt places₀ h₀) solos vars i (vars₁, h₁) done.2]
      refine (htriple (Function.update vars i done.2)).bind fun rest => ?_
      refine Triple.of_fact fun hreplies => ?_
      exact Triple.ret_of (le_fact_mul (by rw [hreply, hreplies]) (le_refl _))

/-! ## Main result -/

omit [DecidableEq Var] in
theorem one_le_threadAt {solo : Solo crates Var} {vars : Vars Var Pointer Slice Slice}
    (hlength : places₀.length = solo.2.next) (hvars : AreVars places₀ solo.1 vars) :
    1 ≤ ThreadAt places₀ solo.2 solo vars :=
  le_ex places₀ (le_fact_mul ⟨List.prefix_rfl, hlength, hvars⟩ (le_of_eq Layout.newAt_self.symm))

omit [DecidableEq Var] in
theorem threadAt_le_atMost (solo : Solo crates Var) (vars : Vars Var Pointer Slice Slice) :
    ThreadAt places₀ h₀ solo vars ≤ atMost (solo.2.blocks.keys \ h₀.blocks.keys).card :=
  ex_le fun _ => fact_mul_le fun _ => Layout.newAt_le_atMost layout_le_atMost

/-- **The threads are isolated.**  In every interleaving of calls that are allowed, and that
leave the setup as it is, there is no fault, and each thread sees what it sees alone.  Memory
has at most one block for each resource that is left of the setup or of a thread. -/
theorem threads_isolated [Fintype Thread] (haligned : crates.BatchAligned)
    {setup : List (Command Var)}
    (hsetup : Along Allowed setup Vars.none (Heap.empty : Heap (Resource crates)))
    {started : List Reply} {vars₀ : Vars Var (Option Nat) (Option Nat) Nat}
    (hrun : run (contract crates) setup Vars.none Heap.empty = some ((started, vars₀), h₀))
    {turns : List (Thread × Command Var)}
    (hfollows : ∀ i, Follows h₀ (ofThread i turns) (vars₀, h₀)) :
    ∃ vars m replies vars' m',
      run (rawLibrary crates) setup Vars.null Heap.empty = some ((started, vars), m) ∧
      runThreads (rawLibrary crates) turns (fun _ => vars) m = some ((replies, vars'), m') ∧
      ∃ alone : Thread → Solo crates Var,
        (∀ i, run (contract crates) (ofThread i turns) vars₀ h₀ =
          some ((ofThread i replies, (alone i).1), (alone i).2)) ∧
        m'.blocks.keys.card ≤ h₀.blocks.keys.card +
          ∑ i, ((alone i).2.blocks.keys \ h₀.blocks.keys).card := by
  obtain ⟨done, h, hrun', howned⟩ := run_goes owned_empty hsetup
  obtain ⟨-, rfl⟩ := Prod.mk.inj (Option.some.inj (hrun.symm.trans hrun'))
  obtain ⟨⟨started', vars⟩, m, places₀, hraw, -, ⟨hstarted, hvars⟩, hm⟩ :=
    (run_refines haligned areVars_initial setup).run hrun Layout.heapAt_empty
  obtain rfl : started' = started := hstarted
  obtain ⟨hlength, hm⟩ := fact_mul.mp hm
  have hsettled : (layout crates).Settled places₀ h₀ := settled howned hlength
  obtain ⟨replies, alone, halone, htriple⟩ :=
    @turns_spec _ _ _ Thread _ _ _ _ haligned hsettled turns (fun _ => (vars₀, h₀))
      (fun _ => howned) (fun _ => .refl) hfollows
  have hthreads : 1 ≤ ∏ _ : Thread, ThreadAt places₀ h₀ (vars₀, h₀) vars :=
    Finset.one_le_prod' fun _ _ => one_le_threadAt hlength hvars
  have hstart : ((layout crates).PartAt places₀ h₀.blocks *
      ∏ _ : Thread, ThreadAt places₀ h₀ (vars₀, h₀) vars) m.blocks := by
    refine mul_le (le_refl _) hthreads _ ?_
    rwa [mul_one]
  obtain ⟨⟨replies', vars'⟩, m', hturns, hpost⟩ := (htriple fun _ => vars).run hstart
  obtain ⟨hreplies, hm'⟩ := fact_mul.mp hpost
  obtain rfl : replies' = replies := hreplies
  refine ⟨vars, m, replies', vars', m', hraw, hturns, alone, halone, ?_⟩
  refine mul_le_atMost (Layout.cells_le_atMost layout_le_atMost _) ?_ _ hm'
  exact prod_le_atMost Finset.univ fun i => threadAt_le_atMost (alone i) (vars' i)

/-- One thread encodes, reads its result and gives it back; the other reads the text of the
setup and encodes, too. -/
def sampleTurns : List (Bool × Command Bool) :=
  [(true, .encode true true true (strBytes "ab") 0 0), (false, .readView true),
    (false, .encodeBatch true true true [strBytes "ab"] 0 1), (true, .readResults true),
    (true, .freeEncodeResults true)]

theorem threads_isolated_sample : ∃ vars m replies vars' m',
    run (rawLibrary SampleLibrary.crates) sampleStart Vars.null Heap.empty =
        some (([.status .ok, .done, .done], vars), m) ∧
      runThreads (rawLibrary SampleLibrary.crates) sampleTurns (fun _ => vars) m =
        some ((replies, vars'), m') ∧
      ∃ h₀ vars₀, ∃ alone : Bool → Solo SampleLibrary.crates Bool,
        (∀ i, run (contract SampleLibrary.crates) (ofThread i sampleTurns) vars₀ h₀ =
          some ((ofThread i replies, (alone i).1), (alone i).2)) ∧
        m'.blocks.keys.card ≤ h₀.blocks.keys.card +
          ∑ i, ((alone i).2.blocks.keys \ h₀.blocks.keys).card := by
  have hjson := SampleLibrary.fromStr_wrapperOf SampleLibrary.fromStr_plain
  have hmake := congrFun (step_newFromStr hjson (Vars.none : Vars Bool _ _ _) true true)
    Heap.empty
  have hallowed : Along Allowed sampleStart Vars.none
      (Heap.empty : Heap (Resource SampleLibrary.crates)) :=
    along_cons (hmake.trans rfl) trivial (along_cons rfl ⟨_, rfl⟩ (along_cons rfl ⟨_, rfl⟩ trivial))
  -- a step that touches and frees nothing spares the setup
  have hlooks : ∀ {h₀ : Heap (Resource SampleLibrary.crates)}
      {vars : Vars Bool (Option Nat) (Option Nat) Nat} {command : Command Bool},
      (∀ a s, ¬ Touches vars command a s) → (∀ a, ¬ Frees vars command a) →
        Spares h₀ vars command := fun htouches hfrees =>
    ⟨fun a s h => absurd h (htouches a s), fun a h => absurd h (hfrees a)⟩
  obtain ⟨vars₀, h₀, hrun, hfollows⟩ : ∃ vars₀ h₀,
      run (contract SampleLibrary.crates) sampleStart Vars.none Heap.empty =
        some (([.status .ok, .done, .done], vars₀), h₀) ∧
      ∀ i, Follows h₀ (ofThread i sampleTurns) (vars₀, h₀) := by
    refine ⟨_, _, run_cons.mpr ⟨_, _, _, _, hmake.trans rfl, rfl, rfl⟩, fun i => ?_⟩
    cases i with
    | false =>
      refine along_cons rfl ⟨⟨_, _, rfl, rfl⟩, hlooks (fun _ _ => id) fun _ => id⟩ ?_
      exact along_cons rfl ⟨⟨_, rfl⟩, hlooks (fun _ _ => id) fun _ => id⟩ trivial
    | true =>
      refine along_cons rfl ⟨⟨_, rfl⟩, hlooks (fun _ _ => id) fun _ => id⟩ ?_
      refine along_cons rfl ⟨?_, hlooks (fun _ _ => id) fun _ => id⟩ ?_
      · exact List.forall_mem_singleton.mpr ⟨_, rfl⟩
      · refine along_cons rfl ⟨⟨List.nodup_singleton _, ?_⟩, ⟨fun _ _ h => absurd h id, ?_⟩⟩ trivial
        · exact List.forall_mem_singleton.mpr ⟨_, rfl⟩
        · exact List.forall_mem_singleton.mpr fun hmem => Nat.lt_irrefl _ (Heap.bounded _ _ hmem)
  obtain ⟨vars, m, replies, vars', m', hraw, hturns, alone, halone, hcard⟩ :=
    threads_isolated SampleLibrary.view_documented.padded.batchAligned hallowed hrun hfollows
  exact ⟨vars, m, replies, vars', m', hraw, hturns, h₀, vars₀, alone, halone, hcard⟩

end Threads

end CClient

end Raw

end TokenizersCpp
