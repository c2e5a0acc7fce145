import Mathlib.Data.Finmap

/-!
# Insertion loops into finite maps

A loop `for (k, v) in entries { map[k] = v; }` lets a later binding of a key
overwrite an earlier one.  `insertAll` is the map such a loop leaves.  Its
bindings come from the list (`mem_of_lookup_insertAll`), every key of the list
is bound (`lookup_insertAll_isSome`), and when the list binds no key twice the
order of the loop does not matter (`lookup_insertAll_iff`).

`inverse` is the map of such a loop with keys and values exchanged.
-/

namespace InsertionLoop

variable {κ : Type*} {β : κ → Type*} [DecidableEq κ]

/-- The map after `for (k, v) in entries { map[k] = v; }`. -/
def insertAll (entries : List (Sigma β)) (map : AList β) : AList β :=
  entries.foldl (fun map pair => map.insert pair.1 pair.2) map

@[simp] theorem insertAll_nil (map : AList β) : insertAll [] map = map := rfl

@[simp] theorem insertAll_cons (pair : Sigma β) (entries : List (Sigma β)) (map : AList β) :
    insertAll (pair :: entries) map = insertAll entries (map.insert pair.1 pair.2) := rfl

theorem insertAll_append (l l' : List (Sigma β)) (map : AList β) :
    insertAll (l ++ l') map = insertAll l' (insertAll l map) :=
  List.foldl_append

/-- A key that the loop does not bind keeps its binding. -/
theorem lookup_insertAll_of_ne {entries : List (Sigma β)} {k : κ}
    (h : ∀ pair ∈ entries, pair.1 ≠ k) (map : AList β) :
    (insertAll entries map).lookup k = map.lookup k := by
  induction entries generalizing map with
  | nil => rfl
  | cons pair entries ih =>
    obtain ⟨hne, hrest⟩ := List.forall_mem_cons.mp h
    rw [insertAll_cons, ih hrest, AList.lookup_insert_ne hne.symm]

/-- The last iteration that binds a key decides its binding. -/
theorem lookup_insertAll_of_last (before : List (Sigma β)) {k : κ} (v : β k)
    {after : List (Sigma β)} (h : ∀ pair ∈ after, pair.1 ≠ k) (map : AList β) :
    (insertAll (before ++ ⟨k, v⟩ :: after) map).lookup k = some v := by
  rw [insertAll_append, insertAll_cons, lookup_insertAll_of_ne h, AList.lookup_insert]

/-- The last iteration decides the binding of its key. -/
theorem lookup_insertAll_concat (entries : List (Sigma β)) (pair : Sigma β) (map : AList β) :
    (insertAll (entries ++ [pair]) map).lookup pair.1 = some pair.2 :=
  lookup_insertAll_of_last entries pair.2 (fun _ h => absurd h List.not_mem_nil) map

/-- A binding is one of the loop's or was there before. -/
theorem mem_of_lookup_insertAll {entries : List (Sigma β)} {map : AList β} {k : κ} {v : β k}
    (h : (insertAll entries map).lookup k = some v) :
    ⟨k, v⟩ ∈ entries ∨ map.lookup k = some v := by
  induction entries generalizing map with
  | nil => exact Or.inr h
  | cons pair entries ih =>
    rcases ih h with hmem | hlook
    · exact Or.inl (List.mem_cons_of_mem _ hmem)
    · by_cases hk : k = pair.1
      · subst hk
        rw [AList.lookup_insert] at hlook
        obtain rfl := Option.some.inj hlook
        exact Or.inl List.mem_cons_self
      · rw [AList.lookup_insert_ne hk] at hlook
        exact Or.inr hlook

/-- The bindings of the loop come first, those from before it second. -/
theorem lookup_insertAll_or (entries : List (Sigma β)) (map : AList β) (k : κ) :
    (insertAll entries map).lookup k =
      ((insertAll entries ∅).lookup k).or (map.lookup k) := by
  induction entries generalizing map with
  | nil => rw [insertAll_nil, insertAll_nil, AList.lookup_empty, Option.none_or]
  | cons pair entries ih =>
    rw [insertAll_cons, insertAll_cons, ih (map.insert _ _), ih (AList.insert _ _ ∅),
      Option.or_assoc]
    refine congrArg _ ?_
    by_cases hk : k = pair.1
    · subst hk
      rw [AList.lookup_insert, AList.lookup_insert, Option.some_or]
    · rw [AList.lookup_insert_ne hk, AList.lookup_insert_ne hk, AList.lookup_empty,
        Option.none_or]

theorem lookup_insertAll_isSome {entries : List (Sigma β)} {map : AList β} {k : κ} :
    ((insertAll entries map).lookup k).isSome ↔
      (∃ v, ⟨k, v⟩ ∈ entries) ∨ (map.lookup k).isSome := by
  induction entries generalizing map with
  | nil => simp
  | cons pair entries ih =>
    rw [insertAll_cons, ih]
    by_cases hk : k = pair.1
    · subst hk
      rw [AList.lookup_insert]
      exact ⟨fun _ => Or.inl ⟨pair.2, List.mem_cons_self⟩, fun _ => Or.inr rfl⟩
    · rw [AList.lookup_insert_ne hk]
      refine or_congr_left (exists_congr fun v => ?_)
      have hne : (⟨k, v⟩ : Sigma β) ≠ pair := fun he => hk (congrArg Sigma.fst he)
      simp [hne]

/-- **A loop that binds no key twice** leaves exactly the bindings it was given. -/
theorem lookup_insertAll_iff {entries : List (Sigma β)}
    (hone : ∀ k v v', ⟨k, v⟩ ∈ entries → ⟨k, v'⟩ ∈ entries → v = v') {k : κ} {v : β k} :
    (insertAll entries ∅).lookup k = some v ↔ ⟨k, v⟩ ∈ entries := by
  constructor
  · intro h
    rcases mem_of_lookup_insertAll h with hmem | hlook
    · exact hmem
    · rw [AList.lookup_empty] at hlook
      cases hlook
  · intro hmem
    obtain ⟨v', hv'⟩ := Option.isSome_iff_exists.mp
      (lookup_insertAll_isSome.mpr (Or.inl ⟨v, hmem⟩) :
        ((insertAll entries ∅).lookup k).isSome)
    rcases mem_of_lookup_insertAll hv' with hmem' | hlook
    · rw [hv', hone k v v' hmem hmem']
    · rw [AList.lookup_empty] at hlook
      cases hlook

/-- Inserting the entries of a map, in any order, rebuilds the map. -/
theorem lookup_insertAll_entries (map : AList β) (k : κ) :
    (insertAll map.entries ∅).lookup k = map.lookup k := by
  have hone : ∀ k v v', ⟨k, v⟩ ∈ map.entries → ⟨k, v'⟩ ∈ map.entries → v = v' :=
    fun k v v' hv hv' => Option.some.inj
      ((AList.mem_lookup_iff.mpr hv).symm.trans (AList.mem_lookup_iff.mpr hv'))
  apply Option.ext
  intro v
  exact (lookup_insertAll_iff hone).trans AList.mem_lookup_iff.symm

/-! ## Inverse maps -/

section Inverse
variable {α : Type*} [DecidableEq α] {entries : List (Sigma fun _ : κ => α)} {k : κ} {a : α}

/-- The map after `for (k, a) in entries { map[a] = k; }`. -/
def inverse (entries : List (Sigma fun _ : κ => α)) : AList fun _ : α => κ :=
  insertAll (entries.map fun pair => ⟨pair.2, pair.1⟩) ∅

omit [DecidableEq κ] [DecidableEq α] in
theorem mem_swapped :
    (⟨a, k⟩ : Sigma fun _ : α => κ) ∈ entries.map (fun pair => ⟨pair.2, pair.1⟩) ↔
      ⟨k, a⟩ ∈ entries := by
  rw [List.mem_map]
  constructor
  · rintro ⟨pair, hmem, hpair⟩
    cases hpair
    exact hmem
  · exact fun hmem => ⟨⟨k, a⟩, hmem, rfl⟩

omit [DecidableEq κ] in
/-- The inverse map finds an entry, whatever the order of the loop is. -/
theorem mem_of_lookup_inverse (h : (inverse entries).lookup a = some k) : ⟨k, a⟩ ∈ entries := by
  rcases mem_of_lookup_insertAll h with hmem | hlook
  · exact mem_swapped.mp hmem
  · rw [AList.lookup_empty] at hlook
    cases hlook

omit [DecidableEq κ] in
/-- It finds some entry for every value. -/
theorem exists_lookup_inverse (h : ⟨k, a⟩ ∈ entries) :
    ∃ k', (inverse entries).lookup a = some k' :=
  Option.isSome_iff_exists.mp
    (lookup_insertAll_isSome.mpr (Or.inl ⟨k, mem_swapped.mpr h⟩))

omit [DecidableEq κ] in
/-- **The inverse of an injective map** does not depend on the order of the loop. -/
theorem lookup_inverse_iff (hinj : ∀ k k' a, ⟨k, a⟩ ∈ entries → ⟨k', a⟩ ∈ entries → k = k') :
    (inverse entries).lookup a = some k ↔ ⟨k, a⟩ ∈ entries := by
  rw [inverse, lookup_insertAll_iff, mem_swapped]
  exact fun a k k' hk hk' => hinj k k' a (mem_swapped.mp hk) (mem_swapped.mp hk')

end Inverse

end InsertionLoop
