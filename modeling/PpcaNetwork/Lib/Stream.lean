import PpcaNetwork.Lib.Search

/-!
# Reading from a connection into a buffer

What a connection delivers is a list of reads, cut arbitrarily, and what happens
after the last of them.  A reader appends reads to its buffer until the buffer
holds enough.

* `Stream` — the reads to come.
* `Stream.fill` — `while !enough(buf) { buf.extend(stream.read()) }`.
* `Stream.fill_of_threshold` — when "enough" means that certain bytes have
  arrived, the loop stops at the first read that brings the last of them, and
  nothing is lost.
* `Stream.fill_until` — so does the loop that waits for a pattern.
* `Stream.Needed` — no read has been taken that was not needed.
-/

namespace PpcaNetwork

/-- The bytes of one successful `read`, which returns at least one byte. -/
abbrev Packet := { bytes : List UInt8 // bytes ≠ [] }

/-- What a `read` meets after everything that was sent has been read. -/
inductive StreamEnd where
  /-- Nothing arrives, and the call does not return. -/
  | waiting
  /-- The peer has closed: the call returns 0. -/
  | closed
  /-- The call returns an error. -/
  | failed
  deriving DecidableEq, Repr

/-- What is still to be read from a connection. -/
structure Stream where
  reads : List Packet
  ending : StreamEnd
  deriving DecidableEq, Repr

/-- The bytes of a list of reads. -/
def packetBytes (reads : List Packet) : List UInt8 := reads.flatMap (·.1)

@[simp] theorem packetBytes_nil : packetBytes [] = [] := rfl

@[simp] theorem packetBytes_cons (r : Packet) (reads : List Packet) :
    packetBytes (r :: reads) = r.1 ++ packetBytes reads := rfl

@[simp] theorem packetBytes_append (xs ys : List Packet) :
    packetBytes (xs ++ ys) = packetBytes xs ++ packetBytes ys := by
  simp [packetBytes]

namespace Stream

/-- The bytes still to be read. -/
def bytes (s : Stream) : List UInt8 := packetBytes s.reads

/-- How filling the buffer ends. -/
inductive Filled where
  /-- The buffer holds enough. -/
  | full (buf : List UInt8) (rest : Stream)
  /-- The reads are used up before. -/
  | ended (buf : List UInt8)
  deriving DecidableEq, Repr

/-- Append reads to the buffer until it holds enough. -/
def fillFrom (enough : List UInt8 → Bool) (ending : StreamEnd) :
    List Packet → List UInt8 → Filled
  | [], buf => if enough buf then .full buf ⟨[], ending⟩ else .ended buf
  | r :: reads, buf =>
    if enough buf then .full buf ⟨r :: reads, ending⟩
    else fillFrom enough ending reads (buf ++ r.1)

/-- `while !enough(buf) { buf.extend(stream.read()) }`. -/
def fill (enough : List UInt8 → Bool) (buf : List UInt8) (s : Stream) : Filled :=
  fillFrom enough s.ending s.reads buf

/-- Between `reads` and `reads'` a reader has taken reads one by one, each of
them while more than `n` bytes were still unread. -/
structure Needed (n : Nat) (reads reads' : List Packet) : Prop where
  suffix : reads' <:+ reads
  needed : ∀ r, (r :: reads') <:+ reads → n < (packetBytes (r :: reads')).length

theorem Needed.refl (n : Nat) (reads : List Packet) : Needed n reads reads where
  suffix := List.suffix_refl _
  needed := by
    intro r h
    have hle := h.length_le
    simp at hle

theorem Needed.cons {n : Nat} {r : Packet} {reads reads' : List Packet}
    (h : Needed n reads reads') (hr : n < (packetBytes (r :: reads)).length) :
    Needed n (r :: reads) reads' where
  suffix := h.suffix.trans (List.suffix_cons _ _)
  needed := by
    intro x hx
    rcases List.suffix_cons_iff.mp hx with heq | hx
    · exact heq ▸ hr
    · exact h.needed x hx

/-- Two phases of reading, the second of which reads further. -/
theorem Needed.trans {n n' : Nat} {reads reads₁ reads₂ : List Packet} (h : Needed n reads reads₁)
    (h' : Needed n' reads₁ reads₂) (hn : n' ≤ n) : Needed n' reads reads₂ where
  suffix := h'.suffix.trans h.suffix
  needed := by
    intro r hr
    by_cases heq : reads₂.length < reads₁.length
    · exact h'.needed r (List.suffix_of_suffix_length_le hr h.suffix heq)
    · have hsame : reads₂ = reads₁ := h'.suffix.eq_of_length_le (by omega)
      subst hsame
      exact lt_of_le_of_lt hn (h.needed r hr)

/-- The reads that are left are the longest suffix with at most `n` bytes. -/
theorem Needed.length_le {n : Nat} {reads reads' xs : List Packet} (h : Needed n reads reads')
    (hxs : xs <:+ reads) (hn : (packetBytes xs).length ≤ n) :
    (packetBytes xs).length ≤ (packetBytes reads').length := by
  have hlen : xs.length ≤ reads'.length := by
    by_contra hlt
    obtain ⟨ys, rfl⟩ := List.suffix_of_suffix_length_le h.suffix hxs (by omega)
    have hne : ys ≠ [] := by
      rintro rfl
      simp at hlt
    obtain ⟨zs, r, rfl⟩ : ∃ zs r, ys = zs ++ [r] :=
      ⟨_, _, (List.dropLast_append_getLast hne).symm⟩
    rw [List.append_assoc, List.singleton_append] at hxs hn
    have hr := h.needed r ((List.suffix_append _ _).trans hxs)
    rw [packetBytes_append, List.length_append] at hn
    omega
  obtain ⟨ys, rfl⟩ := List.suffix_of_suffix_length_le hxs h.suffix hlen
  rw [packetBytes_append, List.length_append]
  exact Nat.le_add_left ..

/-- Two ways of cutting the same bytes, of which the second comes first. -/
theorem exists_append_of_le {u v b c : List UInt8} (h : b ++ c = u ++ v)
    (hlen : u.length ≤ b.length) : ∃ w, b = u ++ w ∧ w ++ c = v := by
  obtain ⟨w, rfl⟩ := List.prefix_of_prefix_length_le (List.prefix_append u v)
    (h ▸ List.prefix_append b c) hlen
  rw [List.append_assoc] at h
  exact ⟨w, rfl, List.append_cancel_left h⟩

/-- When "enough" means that the buffer holds `u` of the bytes `u ++ v` to come,
the loop stops at the first read that gets there, and nothing is lost. -/
theorem fillFrom_of_threshold {enough : List UInt8 → Bool} {ending : StreamEnd}
    {reads : List Packet} {buf u v : List UInt8} (hbytes : buf ++ packetBytes reads = u ++ v)
    (henough : ∀ b, b <+: u ++ v → (enough b = true ↔ u.length ≤ b.length)) :
    ∃ w reads', fillFrom enough ending reads buf = .full (u ++ w) ⟨reads', ending⟩ ∧
      w ++ packetBytes reads' = v ∧ Needed v.length reads reads' := by
  have hbuf := henough buf (hbytes ▸ List.prefix_append ..)
  induction reads generalizing buf with
  | nil =>
    have hlen : u.length ≤ buf.length := by
      have htotal := congrArg List.length hbytes
      simp at htotal
      omega
    obtain ⟨w, rfl, hw⟩ := exists_append_of_le hbytes hlen
    exact ⟨w, [], by rw [fillFrom, if_pos (hbuf.mpr hlen)], hw, Needed.refl _ _⟩
  | cons r reads ih =>
    by_cases hlen : u.length ≤ buf.length
    · obtain ⟨w, rfl, hw⟩ := exists_append_of_le hbytes hlen
      exact ⟨w, r :: reads, by rw [fillFrom, if_pos (hbuf.mpr hlen)], hw, Needed.refl _ _⟩
    · have hassoc : (buf ++ r.1) ++ packetBytes reads = u ++ v := by
        rw [← hbytes, packetBytes_cons, List.append_assoc]
      obtain ⟨w, reads', hfill, hw, hneeded⟩ :=
        ih hassoc (henough _ (hassoc ▸ List.prefix_append ..))
      refine ⟨w, reads', ?_, hw, hneeded.cons ?_⟩
      · rw [fillFrom, if_neg (fun h => hlen (hbuf.mp h))]
        exact hfill
      · have htotal := congrArg List.length hbytes
        rw [List.length_append, List.length_append] at htotal
        omega

theorem fill_of_threshold {enough : List UInt8 → Bool} {s : Stream} {buf u v : List UInt8}
    (hbytes : buf ++ s.bytes = u ++ v)
    (henough : ∀ b, b <+: u ++ v → (enough b = true ↔ u.length ≤ b.length)) :
    ∃ w reads', s.fill enough buf = .full (u ++ w) ⟨reads', s.ending⟩ ∧
      w ++ packetBytes reads' = v ∧ Needed v.length s.reads reads' :=
  fillFrom_of_threshold hbytes henough

/-- A reader that waits for a pattern stops at the first read that brings the last byte of its
first occurrence. -/
theorem fill_until {p : List UInt8} {s : Stream} {buf u v : List UInt8} {i : Nat} (hp : p ≠ [])
    (hfind : findSub p u = some i) (hlen : u.length = i + p.length)
    (hbytes : buf ++ s.bytes = u ++ v) :
    ∃ w reads', s.fill (containsSub p) buf = .full (u ++ w) ⟨reads', s.ending⟩ ∧
      w ++ packetBytes reads' = v ∧ Needed v.length s.reads reads' := by
  refine fill_of_threshold hbytes fun b hb => ?_
  rw [containsSub_prefix_iff hp (findSub_append_right hfind v) hb, hlen]

/-- A buffer that has been filled holds enough, and nothing is lost. -/
theorem fill_full {enough : List UInt8 → Bool} {s s' : Stream} {buf buf' : List UInt8}
    (h : s.fill enough buf = .full buf' s') :
    enough buf' = true ∧ buf' ++ s'.bytes = buf ++ s.bytes := by
  obtain ⟨reads, ending⟩ := s
  unfold fill at h
  simp only at h
  induction reads generalizing buf with
  | nil =>
    unfold fillFrom at h
    split at h
    · rename_i henough
      obtain ⟨rfl, rfl⟩ := Filled.full.inj h
      exact ⟨henough, rfl⟩
    · exact absurd h (by simp)
  | cons r reads ih =>
    unfold fillFrom at h
    split at h
    · rename_i henough
      obtain ⟨rfl, rfl⟩ := Filled.full.inj h
      exact ⟨henough, rfl⟩
    · obtain ⟨henough, hbytes⟩ := ih h
      refine ⟨henough, hbytes.trans ?_⟩
      simp [bytes]

/-- A buffer for which no more of the bytes is ever enough is not filled. -/
theorem fill_ended {enough : List UInt8 → Bool} {s : Stream} {buf : List UInt8}
    (h : ∀ b, b <+: buf ++ s.bytes → enough b = false) :
    ∃ buf', s.fill enough buf = .ended buf' := by
  cases hfill : s.fill enough buf with
  | full buf' s' =>
    obtain ⟨henough, hbytes⟩ := fill_full hfill
    rw [h buf' ⟨s'.bytes, hbytes⟩] at henough
    exact absurd henough (by simp)
  | ended buf' => exact ⟨buf', rfl⟩

/-- A reader that waits for a pattern which does not come reads to the end. -/
theorem fill_missing {p : List UInt8} {s : Stream} {buf : List UInt8}
    (h : findSub p (buf ++ s.bytes) = none) :
    ∃ buf', s.fill (containsSub p) buf = .ended buf' :=
  fill_ended fun _ hb => containsSub_of_prefix h hb

end Stream
end PpcaNetwork
