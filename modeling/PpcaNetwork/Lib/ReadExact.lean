import PpcaNetwork.Lib.Stream

/-!
# Reading an exact number of bytes

`read_exact` on a connection that delivers its bytes in arbitrary reads: each read takes what
still fits into the buffer, and what it leaves is read later.

* `Stream.takeExact` — the bytes that are read, and what is left.
* `takeExact_eq_some`, `takeExact_append` — they are the first bytes to come, and the others are
  left.
-/

namespace PpcaNetwork
namespace Stream

/-- The next `n` bytes, and the reads that are left behind them. -/
def takeExact : Nat → List Packet → Option (List UInt8 × List Packet)
  | 0, reads => some ([], reads)
  | _ + 1, [] => none
  | n + 1, r :: reads =>
    if h : n + 1 < r.1.length then
      some (r.1.take (n + 1), ⟨r.1.drop (n + 1), by simpa using h⟩ :: reads)
    else (takeExact (n + 1 - r.1.length) reads).map fun (bytes, rest) => (r.1 ++ bytes, rest)

theorem takeExact_of_le {n : Nat} {reads : List Packet} (h : n ≤ (packetBytes reads).length) :
    ∃ rest, takeExact n reads = some ((packetBytes reads).take n, rest) ∧
      packetBytes rest = (packetBytes reads).drop n := by
  induction reads generalizing n with
  | nil =>
    obtain rfl : n = 0 := by simpa using h
    exact ⟨[], rfl, rfl⟩
  | cons r reads ih =>
    cases n with
    | zero => exact ⟨r :: reads, rfl, rfl⟩
    | succ n =>
      rw [packetBytes_cons, List.length_append] at h
      rw [packetBytes_cons]
      by_cases hlong : n + 1 < r.1.length
      · rw [takeExact, dif_pos hlong, List.take_append_of_le_length hlong.le,
          List.drop_append_of_le_length hlong.le]
        exact ⟨_, rfl, packetBytes_cons _ _⟩
      · have hshort : r.1.length ≤ n + 1 := Nat.le_of_not_lt hlong
        obtain ⟨rest, hrest, hbytes⟩ := @ih (n + 1 - r.1.length) (by omega)
        rw [takeExact, dif_neg hlong, hrest, List.take_append, List.drop_append,
          List.take_of_length_le hshort, List.drop_of_length_le hshort]
        exact ⟨rest, rfl, hbytes⟩

theorem takeExact_of_lt {n : Nat} {reads : List Packet} (h : (packetBytes reads).length < n) :
    takeExact n reads = none := by
  induction reads generalizing n with
  | nil =>
    cases n with
    | zero => exact absurd h (Nat.not_lt_zero _)
    | succ n => rfl
  | cons r reads ih =>
    rw [packetBytes_cons, List.length_append] at h
    cases n with
    | zero => exact absurd h (Nat.not_lt_zero _)
    | succ n => rw [takeExact, dif_neg (by omega), ih (by omega), Option.map_none]

/-- **What is read.**  The first bytes to come, if there are enough, and however they are cut into
reads the others are left. -/
theorem takeExact_eq_some {n : Nat} {reads rest : List Packet} {bytes : List UInt8}
    (h : takeExact n reads = some (bytes, rest)) :
    packetBytes reads = bytes ++ packetBytes rest ∧ bytes.length = n := by
  by_cases hle : n ≤ (packetBytes reads).length
  · obtain ⟨rest', hrest, hbytes⟩ := takeExact_of_le hle
    rw [hrest] at h
    obtain ⟨rfl, rfl⟩ := Prod.mk.inj (Option.some.inj h)
    rw [hbytes, List.take_append_drop, List.length_take_of_le hle]
    exact ⟨rfl, rfl⟩
  · rw [takeExact_of_lt (Nat.lt_of_not_le hle)] at h
    cases h

theorem takeExact_append {bytes tail : List UInt8} {reads : List Packet}
    (h : packetBytes reads = bytes ++ tail) :
    ∃ rest, takeExact bytes.length reads = some (bytes, rest) ∧ packetBytes rest = tail := by
  obtain ⟨rest, hrest, hbytes⟩ := @takeExact_of_le bytes.length reads (by
    rw [h, List.length_append]
    exact Nat.le_add_right _ _)
  rw [h, List.take_left' rfl] at hrest
  rw [h, List.drop_left' rfl] at hbytes
  exact ⟨rest, hrest, hbytes⟩

end Stream
end PpcaNetwork
