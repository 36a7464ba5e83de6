import Mathlib

/-!
# Finite tables

A hash map with the three bulk operations a program needs besides lookup,
insertion and removal: changing one entry in place, changing every entry, and
keeping the entries that pass a test.  The carrier is Mathlib's `AList`, so a
table cannot hold a key twice; the order of its entries is the iteration order,
which no result here depends on.

* `Table.lookup_modify` — changing one entry is visible under its key only.
* `Table.lookup_mapValues` — changing every entry commutes with lookup.
* `Table.lookup_retain` — filtering filters what lookup returns.
* `Table.mem_entries_iff` — what iteration visits is what lookup finds.
* `Table.collect_single` — collecting what one key has to give.
* `Table.total` — a number for each entry, added up.
-/

namespace PpcaNetwork

/-- A finite map from keys `κ` to values `ν`. -/
abbrev Table (κ ν : Type*) := AList fun _ : κ => ν

namespace Table

variable {κ ν μ : Type*}

/-- Change the entry of `k` with `f`, if there is one. -/
def modify [DecidableEq κ] (k : κ) (f : ν → ν) (t : Table κ ν) : Table κ ν :=
  match t.lookup k with
  | none => t
  | some v => t.insert k (f v)

/-- Change every entry with `f`. -/
def mapValues (f : ν → μ) (t : Table κ ν) : Table κ μ where
  entries := t.entries.map fun e => ⟨e.1, f e.2⟩
  nodupKeys := by
    have hkeys : (t.entries.map fun e => (⟨e.1, f e.2⟩ : Sigma fun _ : κ => μ)).keys
        = t.entries.keys := by
      simp [List.keys, Function.comp_def]
    rw [List.NodupKeys, hkeys]
    exact t.nodupKeys

/-- Keep the entries whose value passes `p`. -/
def retain (p : ν → Bool) (t : Table κ ν) : Table κ ν where
  entries := t.entries.filter fun e => p e.2
  nodupKeys := t.nodupKeys.sublist List.filter_sublist

/-- What iterating over the table and collecting the results of `f` yields. -/
def collect (f : κ → ν → Option μ) (t : Table κ ν) : List μ :=
  t.entries.filterMap fun e => f e.1 e.2

/-- The sum of what `f` gives for the entries. -/
def total (f : ν → ℕ) (t : Table κ ν) : ℕ := (t.entries.map fun e => f e.2).sum

/-- Collecting the keys whose value passes a test. -/
theorem collect_keys (p : ν → Bool) (t : Table κ ν) :
    t.collect (fun k v => if p v then some k else none) = (t.retain p).keys := by
  obtain ⟨entries, hnodup⟩ := t
  unfold collect AList.keys retain
  simp only [List.keys]
  induction entries with
  | nil => rfl
  | cons e entries ih =>
    obtain ⟨-, hrest⟩ := List.nodupKeys_cons.mp hnodup
    by_cases hp : p e.2 = true
    · rw [List.filterMap_cons, if_pos hp, List.filter_cons, if_pos hp, List.map_cons, ih hrest]
    · rw [List.filterMap_cons, if_neg hp, List.filter_cons, if_neg hp, ih hrest]

/-! ## Lookup after each operation -/

section Lookup

variable [DecidableEq κ]

@[simp] theorem lookup_modify (k : κ) (f : ν → ν) (t : Table κ ν) :
    (t.modify k f).lookup k = (t.lookup k).map f := by
  unfold modify
  cases h : t.lookup k with
  | none => simp [h]
  | some v => simp

theorem lookup_modify_ne {k k' : κ} (hne : k' ≠ k) (f : ν → ν) (t : Table κ ν) :
    (t.modify k f).lookup k' = t.lookup k' := by
  unfold modify
  cases t.lookup k with
  | none => rfl
  | some v => exact AList.lookup_insert_ne hne

@[simp] theorem lookup_mapValues (f : ν → μ) (t : Table κ ν) (k : κ) :
    (t.mapValues f).lookup k = (t.lookup k).map f :=
  List.dlookup_map₂ (γ := fun _ => ν) (δ := fun _ => μ) (f := fun _ => f) k

/-- Iteration visits exactly the pairs that lookup finds. -/
theorem mem_entries_iff (t : Table κ ν) (k : κ) (v : ν) :
    (⟨k, v⟩ : Sigma fun _ : κ => ν) ∈ t.entries ↔ t.lookup k = some v :=
  (List.mem_dlookup_iff t.nodupKeys).symm

@[simp] theorem lookup_retain (p : ν → Bool) (t : Table κ ν) (k : κ) :
    (t.retain p).lookup k = (t.lookup k).filter p := by
  ext v
  rw [Option.filter_eq_some_iff, ← mem_entries_iff, ← mem_entries_iff, retain, List.mem_filter]

/-- Erasing the keys of a list. -/
theorem lookup_foldl_erase (ks : List κ) (t : Table κ ν) (k : κ) :
    (ks.foldl (fun t k => t.erase k) t).lookup k = if k ∈ ks then none else t.lookup k := by
  induction ks generalizing t with
  | nil => rfl
  | cons k' ks ih =>
    rw [List.foldl_cons, ih]
    by_cases hk : k = k'
    · subst hk
      simp
    · simp [hk, AList.lookup_erase_ne hk]

theorem mem_collect (f : κ → ν → Option μ) (t : Table κ ν) (b : μ) :
    b ∈ t.collect f ↔ ∃ k v, t.lookup k = some v ∧ f k v = some b := by
  simp only [collect, List.mem_filterMap, Sigma.exists, mem_entries_iff]

/-- Collecting from the entry of one key only. -/
theorem collect_single (k : κ) (f : ν → Option μ) (t : Table κ ν) :
    t.collect (fun k' v => if k' = k then f v else none) = ((t.lookup k).bind f).toList := by
  obtain ⟨entries, hnodup⟩ := t
  unfold collect AList.lookup
  simp only
  induction entries with
  | nil => rfl
  | cons e entries ih =>
    obtain ⟨k', v⟩ := e
    obtain ⟨hnew, hrest⟩ := List.nodupKeys_cons.mp hnodup
    by_cases hk : k' = k
    · subst hk
      have hnone : entries.dlookup k' = none := List.dlookup_eq_none.mpr hnew
      have htail := ih hrest
      rw [hnone] at htail
      rw [List.dlookup_cons_eq, List.filterMap_cons, if_pos rfl, htail]
      cases hv : f v <;> simp [hv]
    · rw [List.dlookup_cons_ne _ _ (Ne.symm hk), List.filterMap_cons, if_neg hk]
      exact ih hrest

theorem mem_keys_retain (p : ν → Bool) (t : Table κ ν) (k : κ) :
    k ∈ (t.retain p).keys ↔ ∃ v, t.lookup k = some v ∧ p v = true := by
  rw [← AList.mem_keys, ← AList.lookup_isSome, lookup_retain, Option.isSome_iff_exists]
  simp only [Option.filter_eq_some_iff]

/-- What an erased entry has given is gone. -/
theorem total_erase (f : ν → ℕ) (k : κ) (t : Table κ ν) :
    total f (t.erase k) + ((t.lookup k).map f).getD 0 = total f t := by
  obtain ⟨entries, hnodup⟩ := t
  unfold total AList.erase AList.lookup
  simp only
  clear hnodup
  induction entries with
  | nil => rfl
  | cons e entries ih =>
    obtain ⟨k', v⟩ := e
    by_cases hk : k' = k
    · subst hk
      have hkerase : List.kerase k' ((⟨k', v⟩ : Sigma fun _ : κ => ν) :: entries) = entries :=
        List.kerase_cons_eq rfl
      rw [hkerase, List.dlookup_cons_eq, List.map_cons, List.sum_cons]
      exact Nat.add_comm ..
    · have hkerase : List.kerase k ((⟨k', v⟩ : Sigma fun _ : κ => ν) :: entries) =
          ⟨k', v⟩ :: List.kerase k entries := List.kerase_cons_ne (Ne.symm hk)
      rw [hkerase, List.dlookup_cons_ne _ _ (Ne.symm hk), List.map_cons,
        List.map_cons, List.sum_cons, List.sum_cons, Nat.add_assoc, ih]

/-- What an entry gives comes in the place of what the old one has given. -/
theorem total_insert (f : ν → ℕ) (k : κ) (v : ν) (t : Table κ ν) :
    total f (t.insert k v) + ((t.lookup k).map f).getD 0 = total f t + f v := by
  have hinsert : total f (t.insert k v) = f v + total f (t.erase k) := by
    simp only [total, AList.entries_insert, AList.erase, List.map_cons, List.sum_cons]
  rw [hinsert, Nat.add_assoc, total_erase, Nat.add_comm]

end Lookup

end Table
end PpcaNetwork
