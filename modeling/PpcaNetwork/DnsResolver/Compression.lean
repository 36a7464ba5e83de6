import PpcaNetwork.DnsResolver.Names
import PpcaNetwork.Lib.Run

/-!
# Name compression

`encode_name_compressed` of `message.rs`, which writes a name out once and points to it where it
comes again.  The table of offsets is right; the pointer is written with the eight bytes of a
`usize`, and a reader sees the root.

* `encodeNameCompressed` — the function.
* `Encoder` — a growing message and its table; a run writes a list of names.
* `NameMapRight` — at the offset of a key stands its name.
* `Encoder.lookup_isSome_iff` — the keys are the names that earlier names end in.
* `ReadBack` — every name is decoded where it was put.
* `compressed_readBack_iff` — when they are.
-/

namespace PpcaNetwork.Dns

/-! ## The function -/

/-- `HashMap<String, usize>`. -/
abbrev NameMap := Table Text Nat

/-- `entry(key).or_insert(offset)`. -/
def NameMap.orInsert (map : NameMap) (key : Text) (offset : Nat) : NameMap :=
  if (map.lookup key).isSome then map else map.insert key offset

/-- The loop over the labels, from one of them on; it lies `byteOff` bytes behind the name's
start. -/
def insertSuffixes (offset : Nat) : (labels : List Text) → (byteOff : Nat) → NameMap → NameMap
  | label :: next :: labels, byteOff, map =>
    let byteOff := byteOff + (1 + label.length)
    insertSuffixes offset (next :: labels) byteOff
      (map.orInsert (joinText [dot] (next :: labels) ++ [dot]) (offset + byteOff))
  | _, _, map => map

/-- `usize::to_be_bytes`. -/
def usizeBytes (n : Nat) : List UInt8 :=
  [56, 48, 40, 32, 24, 16, 8, 0].map fun i => UInt8.ofNat (n >>> i)

/-- `encode_name_compressed`: the bytes, and the table as it leaves it. -/
def encodeNameCompressed (name : Text) (map : NameMap) (offset : Nat) : List UInt8 × NameMap :=
  let key := toAsciiLowercase name
  match map.lookup key with
  | some ptr => (usizeBytes (0xC000 ||| ptr), map)
  | none =>
    let buf := encodeName name
    let labels := (trimEndMatches dot key).splitOn dot
    let map := insertSuffixes offset labels 0 (map.orInsert key offset)
    (buf, map.orInsert rootName (offset + buf.length - 1))

/-- A message, and the table of the names in it. -/
structure Encoder where
  map : NameMap
  msg : List UInt8

namespace Encoder

/-- A message without names. -/
def start (msg : List UInt8) : Encoder := ⟨∅, msg⟩

/-- A name is put behind the message. -/
def step (e : Encoder) (name : Text) : Encoder :=
  let written := encodeNameCompressed name e.map e.msg.length
  ⟨written.2, e.msg ++ written.1⟩

/-- The name has not been found in the table. -/
def Fresh (e : Encoder) (name : Text) : Prop := e.map.lookup (toAsciiLowercase name) = none

end Encoder

/-- Every name of the list is decoded at its offset, up to the offset of the next one. -/
def ReadBack (msg : List UInt8) (names : List Text) : Prop :=
  ∀ before name after, names = before ++ name :: after →
    decodeName (run Encoder.step (.start msg) names).msg
        (run Encoder.step (.start msg) before).msg.length =
      some (name, (run Encoder.step (.start msg) (before ++ [name])).msg.length)

/-- No name is one that an earlier one is or ends in. -/
def NoRepeats (names : List Text) : Prop :=
  names.Pairwise fun earlier name => ¬ pieces name <:+ pieces earlier

instance (names : List Text) : Decidable (NoRepeats names) :=
  inferInstanceAs (Decidable (List.Pairwise _ _))

/-! ## The table -/

namespace NameMap

variable {map : NameMap} {key x : Text} {offset ptr : Nat}

theorem lookup_orInsert_isSome :
    ((map.orInsert key offset).lookup x).isSome ↔ x = key ∨ (map.lookup x).isSome := by
  unfold orInsert
  split
  · rename_i hkey
    constructor
    · exact .inr
    · rintro (rfl | hx)
      · exact hkey
      · exact hx
  · by_cases hx : x = key
    · subst hx
      simp
    · rw [AList.lookup_insert_ne hx]
      simp [hx]

/-- What is found was there before, or has been put in. -/
theorem of_lookup_orInsert (h : (map.orInsert key offset).lookup x = some ptr) :
    map.lookup x = some ptr ∨ (x = key ∧ ptr = offset) := by
  unfold orInsert at h
  split at h
  · exact .inl h
  · by_cases hx : x = key
    · subst hx
      rw [AList.lookup_insert] at h
      exact .inr ⟨rfl, (Option.some.inj h).symm⟩
    · rw [AList.lookup_insert_ne hx] at h
      exact .inl h

end NameMap

section

variable {map : NameMap} {labels : List Text} {x : Text} {offset byteOff ptr : Nat}

/-- The loop puts in the names of the labels behind each label. -/
theorem lookup_insertSuffixes_isSome :
    ((insertSuffixes offset labels byteOff map).lookup x).isSome ↔
      (∃ s, s <:+ labels.tail ∧ s ≠ [] ∧ x = nameOf s) ∨ (map.lookup x).isSome := by
  induction labels generalizing byteOff map with
  | nil => simp [insertSuffixes]
  | cons label labels ih =>
    cases labels with
    | nil => simp [insertSuffixes]
    | cons next labels =>
      rw [insertSuffixes, ih, NameMap.lookup_orInsert_isSome,
        ← nameOf_of_ne_nil (List.cons_ne_nil next labels)]
      constructor
      · rintro (⟨s, hs, hne, rfl⟩ | rfl | hx)
        · exact .inl ⟨s, hs.trans (List.suffix_cons next labels), hne, rfl⟩
        · exact .inl ⟨next :: labels, List.suffix_rfl, List.cons_ne_nil _ _, rfl⟩
        · exact .inr hx
      · rintro (⟨s, hs, hne, rfl⟩ | hx)
        · rcases List.suffix_cons_iff.mp hs with rfl | hs
          · exact .inr (.inl rfl)
          · exact .inl ⟨s, hs, hne, rfl⟩
        · exact .inr (.inr hx)

/-- The offset of such a name is that of its first label. -/
theorem of_lookup_insertSuffixes
    (h : (insertSuffixes offset labels byteOff map).lookup x = some ptr) :
    map.lookup x = some ptr ∨ ∃ front s, labels = front ++ s ∧ x = nameOf s ∧
      ptr = offset + (byteOff + (front.flatMap encodeLabel).length) := by
  induction labels generalizing byteOff map with
  | nil => exact .inl h
  | cons label labels ih =>
    cases labels with
    | nil => exact .inl h
    | cons next labels =>
      rw [insertSuffixes] at h
      rcases ih h with h | ⟨front, s, heq, rfl, rfl⟩
      · rcases NameMap.of_lookup_orInsert h with h | ⟨rfl, rfl⟩
        · exact .inl h
        · refine .inr ⟨[label], next :: labels, rfl, ?_, ?_⟩
          · rw [nameOf_of_ne_nil (List.cons_ne_nil next labels)]
          · simp [encodeLabel, Nat.add_comm]
      · refine .inr ⟨label :: front, s, by rw [heq]; rfl, rfl, ?_⟩
        simp only [List.flatMap_cons, encodeLabel, List.length_append, List.length_cons]
        omega

/-! ## A name that is written out -/

/-- The labels that the table is filled from are those of the name. -/
theorem splitOn_key (h : ∀ label ∈ labels, IsPlain label) (hne : labels ≠ []) :
    (trimEndMatches dot (nameOf labels)).splitOn dot = labels := by
  rw [trimEndMatches_nameOf h, splitOn_joinText h hne]

end

/-- What `encode_name_compressed` does with a name that it does not find. -/
theorem encodeNameCompressed_of_fresh {labels : List Text} {map : NameMap} {offset : Nat}
    (h : ∀ label ∈ labels, IsPlain label)
    (hlower : toAsciiLowercase (nameOf labels) = nameOf labels)
    (hfresh : map.lookup (nameOf labels) = none) :
    encodeNameCompressed (nameOf labels) map offset =
      (encodeName (nameOf labels),
        (insertSuffixes offset labels 0 (map.orInsert (nameOf labels) offset)).orInsert rootName
          (offset + (encodeName (nameOf labels)).length - 1)) := by
  unfold encodeNameCompressed
  dsimp only
  rw [hlower, hfresh]
  by_cases hne : labels = []
  · subst hne
    rfl
  · dsimp only
    rw [splitOn_key h hne]

section

variable {labels : List Text} {map : NameMap} {offset ptr : Nat} {x : Text}

/-- The names of the labels from each one on are put in. -/
theorem lookup_written_isSome (h : ∀ label ∈ labels, IsPlain label)
    (hlower : toAsciiLowercase (nameOf labels) = nameOf labels)
    (hfresh : map.lookup (nameOf labels) = none) :
    ((encodeNameCompressed (nameOf labels) map offset).2.lookup x).isSome ↔
      (∃ s, s <:+ labels ∧ x = nameOf s) ∨ (map.lookup x).isSome := by
  have hroot : rootName = nameOf [] := by decide
  rw [encodeNameCompressed_of_fresh h hlower hfresh, NameMap.lookup_orInsert_isSome,
    lookup_insertSuffixes_isSome, NameMap.lookup_orInsert_isSome, hroot]
  constructor
  · rintro (rfl | ⟨s, hs, -, rfl⟩ | rfl | hx)
    · exact .inl ⟨[], List.nil_suffix, rfl⟩
    · exact .inl ⟨s, hs.trans (List.tail_suffix labels), rfl⟩
    · exact .inl ⟨labels, List.suffix_rfl, rfl⟩
    · exact .inr hx
  · rintro (⟨s, hs, rfl⟩ | hx)
    · by_cases hne : s = []
      · exact .inl (by rw [hne])
      · cases labels with
        | nil => exact absurd (List.suffix_nil.mp hs) hne
        | cons label labels =>
          rcases List.suffix_cons_iff.mp hs with rfl | hs
          · exact .inr (.inr (.inl rfl))
          · exact .inr (.inl ⟨s, hs, hne, rfl⟩)
    · exact .inr (.inr (.inr hx))

/-- And each with its offset. -/
theorem of_lookup_written (h : ∀ label ∈ labels, IsPlain label)
    (hlower : toAsciiLowercase (nameOf labels) = nameOf labels)
    (hfresh : map.lookup (nameOf labels) = none)
    (hx : (encodeNameCompressed (nameOf labels) map offset).2.lookup x = some ptr) :
    map.lookup x = some ptr ∨ ∃ front s, labels = front ++ s ∧ x = nameOf s ∧
      ptr = offset + (front.flatMap encodeLabel).length := by
  rw [encodeNameCompressed_of_fresh h hlower hfresh] at hx
  rcases NameMap.of_lookup_orInsert hx with hx | ⟨rfl, rfl⟩
  · rcases of_lookup_insertSuffixes hx with hx | ⟨front, s, heq, rfl, rfl⟩
    · rcases NameMap.of_lookup_orInsert hx with hx | ⟨rfl, rfl⟩
      · exact .inl hx
      · exact .inr ⟨[], labels, rfl, rfl, rfl⟩
    · exact .inr ⟨front, s, heq, rfl, by rw [Nat.zero_add]⟩
  · refine .inr ⟨labels, [], (List.append_nil labels).symm, by decide, ?_⟩
    rw [encodeName_nameOf h, List.length_append, List.length_singleton, ← Nat.add_assoc,
      Nat.add_sub_cancel]

end

/-- The labels of a name are its pieces. -/
theorem pieces_nameOf_of_plain {labels : List Text} (h : ∀ label ∈ labels, IsPlain label) :
    pieces (nameOf labels) = labels := by
  rw [pieces_nameOf, pieces_eq_self_iff fun label hlabel => (h label hlabel).ne_nil]
  exact fun label hlabel => (h label hlabel).dot_notMem

/-- A name in normal form, with its labels. -/
theorem IsName.exists_labels {name : Text} (h : IsName name) :
    ∃ labels, name = nameOf labels ∧ pieces name = labels ∧ ∀ label ∈ labels, IsPlain label := by
  obtain ⟨labels, rfl, hlabels⟩ := h.labels
  have hplain : ∀ label ∈ labels, IsPlain label := fun l hl => (hlabels l hl).plain
  exact ⟨labels, rfl, pieces_nameOf_of_plain hplain, hplain⟩

namespace Encoder

variable {e : Encoder} {name x : Text}

theorem step_of_found {ptr : Nat} (h : e.map.lookup (toAsciiLowercase name) = some ptr) :
    e.step name = ⟨e.map, e.msg ++ usizeBytes (0xC000 ||| ptr)⟩ := by
  rw [step, encodeNameCompressed, h]

/-- The message only grows. -/
theorem msg_prefix_step (e : Encoder) (name : Text) : e.msg <+: (e.step name).msg :=
  List.prefix_append _ _

theorem msg_prefix_run (e : Encoder) (names : List Text) : e.msg <+: (run step e names).msg := by
  induction names generalizing e with
  | nil => exact List.prefix_rfl
  | cons name names ih => exact (e.msg_prefix_step name).trans (ih (e.step name))

/-! ## The offsets of the table -/

/-- At the offset of a key stands its name. -/
def NameMapRight (e : Encoder) : Prop :=
  ∀ x ptr, e.map.lookup x = some ptr → StandsAt e.msg ptr (encodeName x)

theorem nameMapRight_start (msg : List UInt8) : NameMapRight (start msg) := by
  intro x ptr h
  cases h

theorem NameMapRight.step (h : NameMapRight e) (hname : IsName name) :
    NameMapRight (e.step name) := by
  intro x ptr hx
  cases hfound : e.map.lookup (toAsciiLowercase name) with
  | some found =>
    rw [step_of_found hfound] at hx ⊢
    exact (h x ptr hx).extend (List.prefix_append _ _)
  | none =>
    obtain ⟨labels, rfl, -, hplain⟩ := hname.exists_labels
    rw [hname.lower] at hfound
    rcases of_lookup_written hplain hname.lower hfound hx with hold | ⟨front, s, rfl, rfl, rfl⟩
    · exact (h x ptr hold).extend (e.msg_prefix_step _)
    · have hs : ∀ label ∈ s, IsPlain label := fun l hl => hplain l (List.mem_append_right _ hl)
      have hmsg : (e.step (nameOf (front ++ s))).msg =
          e.msg ++ front.flatMap encodeLabel ++ encodeName (nameOf s) ++ [] := by
        rw [Encoder.step, encodeNameCompressed_of_fresh hplain hname.lower hfound,
          encodeName_nameOf hplain, encodeName_nameOf hs]
        simp
      exact ⟨e.msg ++ front.flatMap encodeLabel, [], hmsg, List.length_append⟩

/-- The offsets are right in every state. -/
theorem nameMapRight_run (msg : List UInt8) {names : List Text} (h : ∀ n ∈ names, IsName n) :
    NameMapRight (run Encoder.step (start msg) names) :=
  Run.invariant_of_guarded NameMapRight (G := fun _ name => IsName name)
    (fun _ _ hright hname => hright.step hname) (nameMapRight_start msg)
    (Run.guarded_of_forall (fun _ n hn => h n hn) _)

/-! ## The keys of the table -/

/-- The keys are the names that earlier names end in. -/
theorem lookup_isSome_iff (msg : List UInt8) {names : List Text} (h : ∀ n ∈ names, IsName n)
    (hx : IsName x) :
    ((run Encoder.step (start msg) names).map.lookup x).isSome ↔
      ∃ earlier ∈ names, pieces x <:+ pieces earlier := by
  induction names using List.reverseRecOn generalizing x with
  | nil =>
    constructor
    · intro hsome
      cases hsome
    · rintro ⟨earlier, ⟨⟩, -⟩
  | append_singleton names name ih =>
    have hold : ∀ n ∈ names, IsName n := fun n hn => h n (List.mem_append_left _ hn)
    have hname : IsName name := h name (by simp)
    have hlast : (∃ earlier ∈ names ++ [name], pieces x <:+ pieces earlier) ↔
        (∃ earlier ∈ names, pieces x <:+ pieces earlier) ∨ pieces x <:+ pieces name := by
      simp only [List.mem_append, List.mem_singleton, or_and_right, exists_or, exists_eq_left]
    rw [Run.run_append, Run.run_cons, Run.run_nil, hlast, ← ih hold hx]
    cases hfound : (run Encoder.step (start msg) names).map.lookup (toAsciiLowercase name) with
    | some found =>
      -- what the name ends in is in the table already
      rw [step_of_found hfound]
      refine ⟨.inl, fun hcase => hcase.elim id fun hsuffix => ?_⟩
      rw [hname.lower] at hfound
      obtain ⟨earlier, hmem, hin⟩ := (ih hold hname).mp (by rw [hfound]; rfl)
      exact (ih hold hx).mpr ⟨earlier, hmem, hsuffix.trans hin⟩
    | none =>
      obtain ⟨labels, rfl, hpieces, hplain⟩ := hname.exists_labels
      rw [hname.lower] at hfound
      rw [step, lookup_written_isSome hplain hname.lower hfound, hpieces, or_comm]
      refine or_congr_right ⟨?_, ?_⟩
      · rintro ⟨s, hs, rfl⟩
        rw [pieces_nameOf_of_plain fun l hl => hplain l (hs.subset hl)]
        exact hs
      · obtain ⟨xlabels, rfl, hxpieces, -⟩ := hx.exists_labels
        rw [hxpieces]
        exact fun hsuffix => ⟨xlabels, hsuffix, rfl⟩

/-- A name is written out if no earlier one is it or ends in it. -/
theorem fresh_iff (msg : List UInt8) {names : List Text} (h : ∀ n ∈ names, IsName n)
    (hname : IsName name) :
    (run Encoder.step (start msg) names).Fresh name ↔
      ∀ earlier ∈ names, ¬ pieces name <:+ pieces earlier := by
  rw [Fresh, hname.lower, ← Option.not_isSome_iff_eq_none, lookup_isSome_iff msg h hname]
  simp

/-! ## What the decoder makes of it -/

/-- A name that is written out is decoded, whatever is put behind it. -/
theorem decodeName_of_fresh (hname : IsName name) (hfresh : e.Fresh name) {msg : List UInt8}
    (hmsg : (e.step name).msg <+: msg) :
    decodeName msg e.msg.length = some (name, (e.step name).msg.length) := by
  have hstep : (e.step name).msg = e.msg ++ encodeName name := by
    rw [step, encodeNameCompressed, hfresh]
  have hstands : StandsAt (e.step name).msg e.msg.length (encodeName name) :=
    ⟨e.msg, [], by rw [hstep, List.append_nil], rfl⟩
  rw [decodeName_standing hname.readsBack (hstands.extend hmsg), hstep, List.length_append]

/-- The first of the eight bytes of a pointer is zero. -/
theorem usizeBytes_pointer {ptr : Nat} (h : ptr < 2 ^ 56) :
    ∃ rest, usizeBytes (0xC000 ||| ptr) = 0 :: rest ∧ rest.length = 7 := by
  have hlt : 0xC000 ||| ptr < 2 ^ 56 := Nat.or_lt_two_pow (by decide) h
  have hzero : (0xC000 ||| ptr) >>> 56 = 0 := by
    rw [Nat.shiftRight_eq_div_pow, Nat.div_eq_of_lt hlt]
  rw [usizeBytes, List.map_cons, hzero]
  exact ⟨_, rfl, rfl⟩

/-- A name that is pointed to is not decoded: the decoder takes the first byte of the pointer for
the root. -/
theorem fresh_of_decodeName (hright : NameMapRight e) {msg : List UInt8}
    (hlength : msg.length ≤ 2 ^ 56) (hmsg : (e.step name).msg <+: msg)
    (hdecoded : decodeName msg e.msg.length = some (name, (e.step name).msg.length)) :
    e.Fresh name := by
  cases hfound : e.map.lookup (toAsciiLowercase name) with
  | none => exact hfound
  | some ptr =>
    have hptr : ptr < 2 ^ 56 := by
      have hstands := (hright _ ptr hfound).length_le
      have hgrown := hmsg.length_le
      rw [step_of_found hfound, List.length_append, usizeBytes, List.length_map] at hgrown
      simp only [List.length_cons, List.length_nil] at hgrown
      omega
    obtain ⟨rest, hbytes, hrest⟩ := usizeBytes_pointer hptr
    rw [step_of_found hfound, hbytes] at hmsg hdecoded
    have hroot : StandsAt msg e.msg.length [0] :=
      StandsAt.extend ⟨e.msg, rest, by simp, rfl⟩ hmsg
    obtain ⟨labels, hwalk, -⟩ := decodeName_eq_some_iff.mp hdecoded
    have hend := (hwalk.eq_of_root hroot).2
    rw [List.length_append, List.length_cons, hrest] at hend
    omega

end Encoder

/-! ## When all names are read back -/

/-- The names that repeat an earlier one, by their places in the list. -/
theorem noRepeats_iff {names : List Text} : NoRepeats names ↔
    ∀ before name after, names = before ++ name :: after →
      ∀ earlier ∈ before, ¬ pieces name <:+ pieces earlier := by
  constructor
  · rintro h before name after rfl earlier hmem
    exact (List.pairwise_append.mp h).2.2 earlier hmem name List.mem_cons_self
  · intro h
    induction names using List.reverseRecOn with
    | nil => exact List.Pairwise.nil
    | append_singleton names name ih =>
      refine List.pairwise_append.mpr ⟨?_, List.pairwise_singleton _ _, ?_⟩
      · refine ih fun before name' after heq => h before name' (after ++ [name]) ?_
        rw [heq, List.append_assoc, List.cons_append]
      · intro earlier hmem name' hname'
        obtain rfl := List.mem_singleton.mp hname'
        exact h names name' [] rfl earlier hmem

/-- **When compressed names are read back.**  For every message and every list of names in normal
form that are put behind it: if none repeats an earlier one; and, in a message of up to 2^56
bytes, only then. -/
theorem compressed_readBack_iff (msg : List UInt8) (names : List Text)
    (hnames : ∀ name ∈ names, IsName name) :
    (NoRepeats names → ReadBack msg names) ∧
      ((run Encoder.step (.start msg) names).msg.length ≤ 2 ^ 56 → ReadBack msg names →
        NoRepeats names) := by
  -- what is put behind a name does not change what stands before it
  have hgrows : ∀ before name after, names = before ++ name :: after →
      (run Encoder.step (.start msg) (before ++ [name])).msg <+:
        (run Encoder.step (.start msg) names).msg := by
    rintro before name after rfl
    have hsplit : before ++ name :: after = before ++ [name] ++ after := by simp
    rw [hsplit, Run.run_append _ (before ++ [name]) after]
    exact Encoder.msg_prefix_run _ _
  have hparts : ∀ before name after, names = before ++ name :: after →
      (∀ n ∈ before, IsName n) ∧ IsName name := by
    rintro before name after rfl
    exact ⟨fun n hn => hnames n (List.mem_append_left _ hn), hnames name (by simp)⟩
  rw [noRepeats_iff]
  constructor
  · intro hfresh before name after heq
    obtain ⟨hbefore, hname⟩ := hparts before name after heq
    have hmsg := hgrows before name after heq
    rw [Run.run_append] at hmsg ⊢
    exact Encoder.decodeName_of_fresh hname
      ((Encoder.fresh_iff msg hbefore hname).mpr (hfresh before name after heq)) hmsg
  · intro hlength hread before name after heq
    obtain ⟨hbefore, hname⟩ := hparts before name after heq
    have hmsg := hgrows before name after heq
    have hdecoded := hread before name after heq
    rw [Run.run_append] at hmsg hdecoded
    exact (Encoder.fresh_iff msg hbefore hname).mp
      (Encoder.fresh_of_decodeName (Encoder.nameMapRight_run msg hbefore) hlength hmsg hdecoded)

/-! ## Two lists of names -/

/-- `mail.example.` and a name of one label. -/
def demoNames (label : Text) : List Text := [nameOf demoLabels, nameOf [label]]

theorem demoNames_isName {label : Text} (hname : IsName (nameOf [label])) :
    ∀ name ∈ demoNames label, IsName name := by
  simp only [demoNames, List.mem_cons, List.not_mem_nil, or_false, forall_eq_or_imp, forall_eq]
  exact ⟨demo_isName, hname⟩

theorem demo_test_isName : IsName (nameOf [utf8 "test"]) := by
  refine ⟨by decide, by decide, [utf8 "test"], rfl, ?_⟩
  simp only [List.mem_singleton, forall_eq]
  exact ⟨by decide, by decide, by decide⟩

theorem demo_example_isName : IsName (nameOf [utf8 "example"]) := by
  refine ⟨by decide, by decide, [utf8 "example"], rfl, ?_⟩
  simp only [List.mem_singleton, forall_eq]
  exact ⟨by decide, by decide, by decide⟩

theorem demo_compressed_readBack :
    ReadBack [1, 2, 3] (demoNames (utf8 "test")) ∧ NoRepeats (demoNames (utf8 "test")) := by
  have hiff := compressed_readBack_iff [1, 2, 3] (demoNames (utf8 "test"))
    (demoNames_isName demo_test_isName)
  have hread := hiff.1 (by decide +kernel)
  exact ⟨hread, hiff.2 (by decide +kernel) hread⟩

/-- `example.` behind it is a pointer of eight bytes, which is read as the root. -/
theorem demo_pointer_misread :
    (∀ name ∈ demoNames (utf8 "example"), IsName name) ∧
      decodeName (run Encoder.step (.start [1, 2, 3]) (demoNames (utf8 "example"))).msg
          (run Encoder.step (.start [1, 2, 3]) [nameOf demoLabels]).msg.length =
        some (rootName, 18) ∧
      ¬ ReadBack [1, 2, 3] (demoNames (utf8 "example")) := by
  have hroot : decodeName (run Encoder.step (.start [1, 2, 3]) (demoNames (utf8 "example"))).msg
      (run Encoder.step (.start [1, 2, 3]) [nameOf demoLabels]).msg.length =
        some (rootName, 18) := by decide +kernel
  refine ⟨demoNames_isName demo_example_isName, hroot, fun hread => ?_⟩
  have hexample := hread [nameOf demoLabels] (nameOf [utf8 "example"]) [] rfl
  rw [hroot] at hexample
  have hname : rootName = nameOf [utf8 "example"] := (Prod.mk.inj (Option.some.inj hexample)).1
  exact absurd hname (by decide)

end PpcaNetwork.Dns
