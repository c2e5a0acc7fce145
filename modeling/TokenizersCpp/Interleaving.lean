import Mathlib.Logic.Function.Basic
import Mathlib.Data.List.Basic

/-!
# Interleavings

Clients take steps around one shared state, one at a time and in any order.  A
step of a client moves the shared state and the client's own local state, may
look at the local states of all, and may emit an event.  A run is any sequence
of such steps from a start state, with the events it has emitted (`Run`).

Two rules carry an argument about one step over to all runs:

* **exclusion** (`Run.exclusive`): a section that a client enters only while the
  others are outside never holds two of them;
* **non-interference** (`Outline.run`): if a step of a client preserves the
  invariant of the shared state, establishes the client's own assertion, and
  disturbs no assertion of a client that shares no section with it, then every
  state that a run reaches meets all of them, and every event it emits is good.
-/

namespace Interleaving

/-- A state: the shared part and one local state for each client. -/
structure Config (Client Shared Local : Type*) where
  shared : Shared
  locals : Client → Local

/-- What the clients can do.  `step c s g l event`: in the state `s` client `c`
may move the shared state to `g` and itself to `l`, emitting `event`. -/
structure System (Client Shared Local Event : Type*) where
  start : Shared → Prop
  idle : Local
  step : Client → Config Client Shared Local → Shared → Local → Option Event → Prop

variable {Client Shared Local Event : Type*} [DecidableEq Client]

/-- The state after client `c` has moved. -/
def Config.move (s : Config Client Shared Local) (c : Client) (g : Shared) (l : Local) :
    Config Client Shared Local :=
  ⟨g, Function.update s.locals c l⟩

section Move
variable (s : Config Client Shared Local) (c : Client) (g : Shared) (l : Local)

@[simp] theorem Config.move_locals_self : (s.move c g l).locals c = l :=
  Function.update_self ..

theorem Config.move_locals_of_ne {d : Client} (h : d ≠ c) :
    (s.move c g l).locals d = s.locals d :=
  Function.update_of_ne h ..

end Move

/-- The states that the system reaches, with the events emitted on the way. -/
inductive Run (S : System Client Shared Local Event) :
    Config Client Shared Local → List Event → Prop
  | start {g : Shared} (h : S.start g) : Run S ⟨g, fun _ => S.idle⟩ []
  | step {s : Config Client Shared Local} {events : List Event} {c : Client} {g : Shared}
      {l : Local} {event : Option Event} (h : Run S s events) (hstep : S.step c s g l event) :
      Run S (s.move c g l) (events ++ event.toList)

variable {S : System Client Shared Local Event}

/-! ## Exclusion -/

/-- At most one client is inside the section. -/
def Exclusive (inside : Local → Prop) (s : Config Client Shared Local) : Prop :=
  ∀ c d, inside (s.locals c) → inside (s.locals d) → c = d

/-- A section is a mutex if idle clients are outside, and a client comes in only
while all others are outside. -/
structure Mutex (S : System Client Shared Local Event) (inside : Local → Prop) : Prop where
  idle : ¬ inside S.idle
  enter : ∀ {c s g l event}, S.step c s g l event → inside l → ¬ inside (s.locals c) →
    ∀ d, d ≠ c → ¬ inside (s.locals d)

/-- A step keeps a mutex exclusive. -/
theorem Mutex.step {inside : Local → Prop} (hmutex : Mutex S inside)
    {s : Config Client Shared Local} {c : Client} {g : Shared} {l : Local} {event : Option Event}
    (hstep : S.step c s g l event) (hexcl : Exclusive inside s) :
    Exclusive inside (s.move c g l) := by
  -- whoever else is inside was inside before, so `c` was already there as well
  have hother : inside l → ∀ d, d ≠ c → ¬ inside (s.locals d) := by
    intro hl d hd hin
    by_cases hc : inside (s.locals c)
    · exact hd (hexcl d c hin hc)
    · exact hmutex.enter hstep hl hc d hd hin
  intro d e hd he
  by_cases hdc : d = c <;> by_cases hec : e = c
  · rw [hdc, hec]
  · rw [hdc, Config.move_locals_self] at hd
    rw [Config.move_locals_of_ne _ _ _ _ hec] at he
    exact absurd he (hother hd e hec)
  · rw [hec, Config.move_locals_self] at he
    rw [Config.move_locals_of_ne _ _ _ _ hdc] at hd
    exact absurd hd (hother he d hdc)
  · rw [Config.move_locals_of_ne _ _ _ _ hdc] at hd
    rw [Config.move_locals_of_ne _ _ _ _ hec] at he
    exact hexcl d e hd he

/-- **Exclusion**: a mutex never holds two clients. -/
theorem Run.exclusive {inside : Local → Prop} (hmutex : Mutex S inside)
    {s : Config Client Shared Local} {events : List Event} (h : Run S s events) :
    Exclusive inside s := by
  induction h with
  | start h => exact fun c d hc _ => absurd hc hmutex.idle
  | step h hstep ih => exact hmutex.step hstep ih

/-! ## Non-interference -/

variable {Section : Type*}

/-- An outline of the clients: an invariant of the shared state, an assertion for
each local state, and what the events promise.  The sections are mutexes, and a
step disturbs the assertion of another client only if both are inside one. -/
structure Outline (S : System Client Shared Local Event) (inside : Section → Local → Prop)
    (Inv : Shared → Prop) (At : Shared → Local → Prop) (Good : Event → Prop) : Prop where
  start : ∀ {g}, S.start g → Inv g ∧ At g S.idle
  mutex : ∀ k, Mutex S (inside k)
  own : ∀ {c s g l event}, S.step c s g l event → Inv s.shared → At s.shared (s.locals c) →
    Inv g ∧ At g l
  other : ∀ {c s g l event}, S.step c s g l event → Inv s.shared → At s.shared (s.locals c) →
    ∀ l', At s.shared l' → (∀ k, inside k (s.locals c) → ¬ inside k l') → At g l'
  emits : ∀ {c s g l event}, S.step c s g l (some event) → Inv s.shared →
    At s.shared (s.locals c) → Good event

/-- **Non-interference**: in every run of an outlined system the invariant and
all the assertions hold, and every event is good. -/
theorem Outline.run {inside : Section → Local → Prop} {Inv : Shared → Prop}
    {At : Shared → Local → Prop} {Good : Event → Prop} (outline : Outline S inside Inv At Good)
    {s : Config Client Shared Local} {events : List Event} (h : Run S s events) :
    Inv s.shared ∧ (∀ c, At s.shared (s.locals c)) ∧ ∀ event ∈ events, Good event := by
  induction h with
  | start h => exact ⟨(outline.start h).1, fun _ => (outline.start h).2, nofun⟩
  | @step s events c g l event h hstep ih =>
    obtain ⟨hinv, hat, hgood⟩ := ih
    obtain ⟨hinv', hown⟩ := outline.own hstep hinv (hat c)
    refine ⟨hinv', fun d => ?_, fun event' hmem => ?_⟩
    · by_cases hd : d = c
      · rw [hd, Config.move_locals_self]
        exact hown
      · rw [Config.move_locals_of_ne _ _ _ _ hd]
        -- two clients inside one section would be one client
        refine outline.other hstep hinv (hat c) _ (hat d) fun k hc hin => ?_
        exact hd (h.exclusive (outline.mutex k) d c hin hc)
    · rcases List.mem_append.mp hmem with hold | hnew
      · exact hgood event' hold
      · obtain rfl := Option.mem_toList.mp hnew
        exact outline.emits hstep hinv (hat c)

end Interleaving
