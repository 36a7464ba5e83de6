import Mathlib

/-!
# Values that expire

A list of entries, each with a value and the time it expires at, that is meant to be a
map: for every value the last thing that was put.  Entries are refreshed in place or
appended, and dropped once they have expired.

* `upsert` — refresh the entry of a value, or append a new one.
* `Tracks` — the list agrees with the map of last puts `last`, except that it may have
  forgotten what has expired by the time `clock`.
* `Tracks.upsert`, `Tracks.prune`, `Tracks.later` — what keeps it so.
* `Tracks.mem_live_iff` — the entries that have not expired are those of the map.
-/

namespace PpcaNetwork

variable {ε ν α : Type*}

/-- Refresh the first entry that is hit, or append a new one. -/
def upsert (hit : ε → Bool) (refresh : ε → ε) (new : ε) : List ε → List ε
  | [] => [new]
  | e :: es => if hit e then refresh e :: es else e :: upsert hit refresh new es

/-- What an entry says about its value: when it expires, and what was put with it. -/
structure Stamp (ε ν α : Type*) where
  value : ε → ν
  expires : ε → Nat
  payload : ε → α

/-- The entry of a value that the map of last puts has. -/
def Stamp.last (s : Stamp ε ν α) (e : ε) : Nat × α := (s.expires e, s.payload e)

/-- The entries are the last puts of their values, each value has at most one, and what
was put and has not expired at `clock` has one. -/
structure Tracks (s : Stamp ε ν α) (last : ν → Option (Nat × α)) (clock : Nat)
    (entries : List ε) : Prop where
  nodup : (entries.map s.value).Nodup
  last_eq : ∀ e ∈ entries, last (s.value e) = some (s.last e)
  live : ∀ v expires a, last v = some (expires, a) → clock < expires →
    ∃ e ∈ entries, s.value e = v

section Upsert

variable {hit : ε → Bool} {refresh : ε → ε} {new : ε} {s : Stamp ε ν α}

/-- The values after an upsert: the old ones, and the new one if it was not there. -/
theorem map_value_upsert [DecidableEq ν] (hhit : ∀ e, hit e = true ↔ s.value e = s.value new)
    (hrefresh : ∀ e, s.value (refresh e) = s.value e) (entries : List ε) :
    (upsert hit refresh new entries).map s.value =
      if s.value new ∈ entries.map s.value then entries.map s.value
      else entries.map s.value ++ [s.value new] := by
  induction entries with
  | nil => simp [upsert]
  | cons e es ih =>
    by_cases h : hit e = true
    · have heq : s.value e = s.value new := (hhit e).mp h
      simp [upsert, h, hrefresh, heq]
    · have hne : s.value new ≠ s.value e := fun heq => h ((hhit e).mpr heq.symm)
      rw [upsert, if_neg h, List.map_cons, ih, List.map_cons]
      simp only [List.mem_cons, hne, false_or]
      split <;> rfl

/-- An entry after an upsert was there before, or has the new value. -/
theorem mem_upsert (hrefresh : ∀ e, s.value (refresh e) = s.value e)
    (hhit : ∀ e, hit e = true ↔ s.value e = s.value new)
    (hlast : ∀ e, s.last (refresh e) = s.last new) {entries : List ε}
    (hnodup : (entries.map s.value).Nodup) {e : ε} (he : e ∈ upsert hit refresh new entries) :
    (s.value e = s.value new ∧ s.last e = s.last new) ∨
      (s.value e ≠ s.value new ∧ e ∈ entries) := by
  induction entries with
  | nil =>
    obtain rfl : e = new := by simpa [upsert] using he
    exact .inl ⟨rfl, rfl⟩
  | cons x xs ih =>
    rw [List.map_cons, List.nodup_cons] at hnodup
    rw [upsert] at he
    by_cases h : hit x = true
    · rw [if_pos h] at he
      have hx : s.value x = s.value new := (hhit x).mp h
      rcases List.mem_cons.mp he with rfl | he
      · exact .inl ⟨(hrefresh x).trans hx, hlast x⟩
      · refine .inr ⟨?_, List.mem_cons_of_mem x he⟩
        intro heq
        exact hnodup.1 (List.mem_map.mpr ⟨e, he, heq.trans hx.symm⟩)
    · rw [if_neg h] at he
      rcases List.mem_cons.mp he with rfl | he
      · exact .inr ⟨fun heq => h ((hhit e).mpr heq), by simp⟩
      · rcases ih hnodup.2 he with hnew | ⟨hne, hold⟩
        · exact .inl hnew
        · exact .inr ⟨hne, List.mem_cons_of_mem x hold⟩

end Upsert

namespace Tracks

variable {s : Stamp ε ν α} {last : ν → Option (Nat × α)} {clock : Nat} {entries : List ε}

/-- Nothing was put. -/
theorem nil (hlast : ∀ v, last v = none) : Tracks s last clock [] where
  nodup := List.nodup_nil
  last_eq := by simp
  live := by
    intro v expires a hv
    rw [hlast] at hv
    exact absurd hv (by simp)

/-- Time passes. -/
theorem later (h : Tracks s last clock entries) {clock' : Nat} (hle : clock ≤ clock') :
    Tracks s last clock' entries where
  nodup := h.nodup
  last_eq := h.last_eq
  live := fun v expires a hv hlt => h.live v expires a hv (Nat.lt_of_le_of_lt hle hlt)

/-- What has expired may be dropped. -/
theorem prune (h : Tracks s last clock entries) :
    Tracks s last clock (entries.filter fun e => clock < s.expires e) where
  nodup := h.nodup.sublist (List.filter_sublist.map s.value)
  last_eq := fun e he => h.last_eq e (List.mem_of_mem_filter he)
  live := by
    intro v expires a hv hlt
    obtain ⟨e, he, rfl⟩ := h.live v expires a hv hlt
    have heq := Option.some.inj ((h.last_eq e he).symm.trans hv)
    have hexpires : s.expires e = expires := congrArg Prod.fst heq
    exact ⟨e, List.mem_filter.mpr ⟨he, by simpa [hexpires] using hlt⟩, rfl⟩

/-- A put is the last one of its value. -/
theorem upsert [DecidableEq ν] (h : Tracks s last clock entries) {hit : ε → Bool}
    {refresh : ε → ε} (new : ε) (hhit : ∀ e, hit e = true ↔ s.value e = s.value new)
    (hrefresh : ∀ e, s.value (refresh e) = s.value e)
    (hstamp : ∀ e, s.last (refresh e) = s.last new) :
    Tracks s (Function.update last (s.value new) (some (s.last new))) clock
      (upsert hit refresh new entries) where
  nodup := by
    rw [map_value_upsert hhit hrefresh]
    split
    · exact h.nodup
    · rename_i hnew
      exact List.nodup_append.mpr ⟨h.nodup, List.nodup_singleton _, by
        intro v hv w hw
        rw [List.mem_singleton.mp hw]
        exact fun heq => hnew (heq ▸ hv)⟩
  last_eq := by
    intro e he
    rcases mem_upsert hrefresh hhit hstamp h.nodup he with ⟨hvalue, hlast⟩ | ⟨hne, hold⟩
    · rw [hvalue, Function.update_self, hlast]
    · rw [Function.update_of_ne hne]
      exact h.last_eq e hold
  live := by
    intro v expires a hv hlt
    have hmem : v ∈ (PpcaNetwork.upsert hit refresh new entries).map s.value := by
      rw [map_value_upsert hhit hrefresh]
      by_cases heq : v = s.value new
      · subst heq
        split
        · assumption
        · simp
      · rw [Function.update_of_ne heq] at hv
        obtain ⟨e, he, rfl⟩ := h.live v expires a hv hlt
        have hold : s.value e ∈ entries.map s.value := List.mem_map_of_mem he
        split
        · exact hold
        · exact List.mem_append_left _ hold
    obtain ⟨e, he, rfl⟩ := List.mem_map.mp hmem
    exact ⟨e, he, rfl⟩

/-- **The live entries are the live last puts.** -/
theorem mem_live_iff (h : Tracks s last clock entries) (v : ν) (expires : Nat) (a : α) :
    (∃ e ∈ entries.filter (fun e => clock < s.expires e), s.value e = v ∧ s.last e = (expires, a)) ↔
      last v = some (expires, a) ∧ clock < expires := by
  constructor
  · rintro ⟨e, he, rfl, hlast⟩
    obtain ⟨hmem, hlt⟩ := List.mem_filter.mp he
    refine ⟨(h.last_eq e hmem).trans (congrArg some hlast), ?_⟩
    have hexpires : s.expires e = expires := congrArg Prod.fst hlast
    simpa [hexpires] using hlt
  · rintro ⟨hv, hlt⟩
    obtain ⟨e, he, rfl⟩ := h.prune.live v expires a hv hlt
    exact ⟨e, he, rfl, Option.some.inj ((h.prune.last_eq e he).symm.trans hv)⟩

end Tracks
end PpcaNetwork
