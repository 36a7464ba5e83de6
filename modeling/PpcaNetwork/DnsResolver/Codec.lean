import PpcaNetwork.Lib.DomainName
import PpcaNetwork.DnsResolver.Message

/-!
# Encoded messages decode

What `encode_message` writes, `decode_message` reads back: each decoder, at any offset
of any message where the bytes of its encoder stand, returns what was encoded and ends
behind it.

* `IsName` — names as `decode_name` writes them; `NameReadsBack`, with labels of any length
  that it reads.
* `decodeName_labels` — what `decode_name` makes of labels that stand in a message.
* `decodeName_standing`, `decodeQuestion_standing`, `decodeRdata_standing`,
  `decodeRr_standing`, `decodeMany_standing` — the decoders, each at its offset.
* `DnsMessage.Normal` — messages whose counts, names and data are in order.
* `decodeMessage_encodeMessage` — the round trip.
-/

namespace PpcaNetwork.Dns

/-! ## Names -/

/-- The name that `decode_name` makes of labels. -/
def nameOf (labels : List Text) : Text :=
  if labels.isEmpty then rootName else joinText [dot] labels ++ [dot]

/-- A label that a name can be taken apart into: some bytes without a dot. -/
structure IsPlain (label : Text) : Prop where
  ne_nil : label ≠ []
  dot_notMem : dot ∉ label

/-- A label of a name: 1 to 63 bytes without a dot. -/
structure IsLabel (label : Text) : Prop where
  ne_nil : label ≠ []
  length_le : label.length ≤ 63
  dot_notMem : dot ∉ label

/-- A name in normal form: text in lower case, the root or labels with a dot behind
each. -/
structure IsName (name : Text) : Prop where
  utf8 : isUtf8 name = true
  lower : toAsciiLowercase name = name
  labels : ∃ labels, name = nameOf labels ∧ ∀ label ∈ labels, IsLabel label

/-- A label that `decode_name` takes for one: text whose length does not look like a pointer. -/
structure IsReadable (label : Text) : Prop where
  ne_nil : label ≠ []
  length_le : label.length ≤ 191
  utf8 : isUtf8 label = true

/-- A name that comes back from the wire as it was: readable labels in lower case and
without dots inside. -/
structure NameReadsBack (name : Text) : Prop where
  lower : toAsciiLowercase name = name
  labels : ∃ labels, name = nameOf labels ∧ ∀ label ∈ labels, IsReadable label ∧ dot ∉ label

theorem IsLabel.plain {label : Text} (h : IsLabel label) : IsPlain label :=
  ⟨h.ne_nil, h.dot_notMem⟩

/-- A label on the wire. -/
def encodeLabel (label : Text) : List UInt8 := UInt8.ofNat label.length :: label

theorem joinText_cons (label : Text) {labels : List Text} (hne : labels ≠ []) :
    joinText [dot] (label :: labels) = label ++ dot :: joinText [dot] labels := by
  obtain ⟨label', labels, rfl⟩ := List.exists_cons_of_ne_nil hne
  simp [joinText]

/-- Joined labels do not end in a dot. -/
theorem joinText_concat {labels : List Text} (hne : labels ≠ [])
    (h : ∀ label ∈ labels, IsPlain label) :
    ∃ front b, joinText [dot] labels = front ++ [b] ∧ b ≠ dot := by
  induction labels with
  | nil => exact absurd rfl hne
  | cons label labels ih =>
    by_cases hlast : labels = []
    · subst hlast
      have hlabel : IsPlain label := h label (by simp)
      refine ⟨label.dropLast, label.getLast hlabel.ne_nil, ?_, ?_⟩
      · simp [joinText, List.dropLast_append_getLast hlabel.ne_nil]
      · intro heq
        exact hlabel.dot_notMem (heq ▸ List.getLast_mem hlabel.ne_nil)
    · obtain ⟨front, b, heq, hb⟩ := ih hlast fun l hl => h l (List.mem_cons_of_mem _ hl)
      refine ⟨label ++ dot :: front, b, ?_, hb⟩
      rw [joinText_cons label hlast, heq, List.append_assoc, List.cons_append]

theorem nameOf_of_ne_nil {labels : List Text} (hne : labels ≠ []) :
    nameOf labels = joinText [dot] labels ++ [dot] := by
  rw [nameOf, if_neg (by simpa using hne)]

/-- What `encode_name` trims off a name is the dot at its end. -/
theorem trimEndMatches_nameOf {labels : List Text} (h : ∀ label ∈ labels, IsPlain label) :
    trimEndMatches dot (nameOf labels) = joinText [dot] labels := by
  by_cases hne : labels = []
  · subst hne
    decide
  · obtain ⟨front, b, heq, hb⟩ := joinText_concat hne h
    rw [nameOf_of_ne_nil hne, trimEndMatches, List.rdropWhile_concat_pos _ _ _ (by simp), heq,
      List.rdropWhile_concat_neg _ _ _ (by simpa using hb)]

/-- Its labels are what stands between the other dots. -/
theorem splitOn_joinText {labels : List Text} (h : ∀ label ∈ labels, IsPlain label)
    (hne : labels ≠ []) : (joinText [dot] labels).splitOn dot = labels :=
  List.splitOn_intercalate dot (fun label hlabel => (h label hlabel).dot_notMem) hne

/-- A name is written label by label. -/
theorem encodeName_nameOf {labels : List Text} (h : ∀ label ∈ labels, IsPlain label) :
    encodeName (nameOf labels) = labels.flatMap encodeLabel ++ [0] := by
  rw [encodeName, trimEndMatches_nameOf h]
  by_cases hne : labels = []
  · subst hne
    decide
  · have hlabels : ∀ label ∈ labels,
        (if label.isEmpty then [] else UInt8.ofNat label.length :: label) = encodeLabel label := by
      intro label hlabel
      rw [if_neg (by simpa using (h label hlabel).ne_nil), encodeLabel]
    rw [splitOn_joinText h hne, List.flatMap_congr hlabels]

/-- The labels of a text are texts. -/
theorem isUtf8_of_nameOf {labels : List Text} (h : isUtf8 (nameOf labels) = true) :
    ∀ label ∈ labels, isUtf8 label = true := by
  have hdot : dot < 0x80 := by decide
  have hjoined : ∀ labels : List Text, labels ≠ [] →
      isUtf8 (joinText [dot] labels ++ [dot]) = true → ∀ label ∈ labels, isUtf8 label = true := by
    intro labels
    induction labels with
    | nil => exact fun hne => absurd rfl hne
    | cons label labels ih =>
      intro _ hname
      by_cases hlast : labels = []
      · subst hlast
        have hlabel := (isUtf8_of_append hdot (s := label) (t := []) (by
          simpa [joinText] using hname)).1
        simpa using hlabel
      · rw [joinText_cons label hlast, List.append_assoc, List.cons_append] at hname
        obtain ⟨hlabel, hrest⟩ := isUtf8_of_append hdot hname
        rw [← List.singleton_append, isUtf8_append_of_ascii (by simpa using hdot)] at hrest
        intro l hl
        rcases List.mem_cons.mp hl with rfl | hl
        · exact hlabel
        · exact ih hlast hrest l hl
  by_cases hne : labels = []
  · subst hne
    simp
  · rw [nameOf_of_ne_nil hne] at h
    exact hjoined labels hne h

/-- The bytes of the labels of a name are bytes of the name. -/
theorem mem_nameOf {labels : List Text} {label : Text} (hlabel : label ∈ labels) {b : UInt8}
    (hb : b ∈ label) : b ∈ nameOf labels := by
  rw [nameOf_of_ne_nil (List.ne_nil_of_mem hlabel)]
  refine List.mem_append_left _ ?_
  induction labels with
  | nil => exact absurd hlabel (by simp)
  | cons l labels ih =>
    by_cases hlast : labels = []
    · subst hlast
      rw [List.mem_singleton] at hlabel
      simpa [joinText, ← hlabel] using hb
    · rw [joinText_cons l hlast]
      rcases List.mem_cons.mp hlabel with rfl | hlabel
      · exact List.mem_append_left _ hb
      · exact List.mem_append_right _ (List.mem_cons_of_mem _ (ih hlabel))

theorem toAsciiLowercase_eq_self_iff (s : Text) :
    toAsciiLowercase s = s ↔ ∀ b ∈ s, asciiLower b = b := by
  have hmap := List.map_inj_left (f := asciiLower) (g := id) (l := s)
  simpa [toAsciiLowercase] using hmap

/-- The labels of a name in lower case are in lower case. -/
theorem lower_of_nameOf {labels : List Text}
    (h : toAsciiLowercase (nameOf labels) = nameOf labels) :
    ∀ label ∈ labels, toAsciiLowercase label = label := by
  intro label hlabel
  rw [toAsciiLowercase_eq_self_iff] at h ⊢
  exact fun b hb => h b (mem_nameOf hlabel hb)

/-! ## Decoding a name -/

theorem IsLabel.valid {label : Text} (h : IsLabel label) : ValidLabel label :=
  ⟨List.length_pos_iff.mpr h.ne_nil, h.length_le⟩

theorem IsName.readsBack {name : Text} (h : IsName name) : NameReadsBack name := by
  obtain ⟨labels, rfl, hlabel⟩ := h.labels
  refine ⟨h.lower, labels, rfl, ?_⟩
  intro label hmem
  obtain ⟨hne, hle, hdot⟩ := hlabel label hmem
  exact ⟨⟨hne, by omega, isUtf8_of_nameOf h.utf8 label hmem⟩, hdot⟩

/-- The length byte of a label is not zero and not a pointer. -/
theorem lengthByte_of_label {label : Text} (hpos : 0 < label.length)
    (hle : label.length ≤ 191) :
    (UInt8.ofNat label.length).toNat = label.length ∧ UInt8.ofNat label.length ≠ 0 ∧
      ¬ UInt8.ofNat label.length &&& 0xC0 = 0xC0 := by
  have hlen : (UInt8.ofNat label.length).toNat = label.length := by
    rw [UInt8.toNat_ofNat']
    exact Nat.mod_eq_of_lt (by omega)
  refine ⟨hlen, ?_, ?_⟩
  · intro hzero
    rw [hzero] at hlen
    exact absurd hlen (by simp; omega)
  · intro hpointer
    have hand : (UInt8.ofNat label.length &&& 0xC0).toNat ≤ (UInt8.ofNat label.length).toNat := by
      rw [UInt8.toNat_and]
      exact Nat.and_le_left
    rw [hpointer, hlen] at hand
    exact absurd hand (by simp; omega)

/-- The loop of `decode_name` reads the labels that stand where it is, in lower case. -/
theorem decodeNameLoop_standing {msg : List UInt8} {labels acc : List Text} {fuel offset : Nat}
    {jumpEnd : Nat} {visited : List Nat} (hfuel : labels.length < fuel)
    (hlabel : ∀ label ∈ labels, IsReadable label)
    (h : StandsAt msg offset (labels.flatMap encodeLabel ++ [0])) :
    decodeNameLoop msg fuel acc offset false jumpEnd visited =
      some (acc ++ labels.map toAsciiLowercase,
        offset + (labels.flatMap encodeLabel ++ [0]).length) := by
  induction labels generalizing acc fuel offset with
  | nil =>
    obtain ⟨fuel, rfl⟩ : ∃ n, fuel = n + 1 := ⟨fuel - 1, by simp at hfuel; omega⟩
    have hle := h.length_le
    simp only [List.flatMap_nil, List.nil_append, List.length_singleton] at h hle ⊢
    have hbyte := h.getElem_eq 0 (by simp) (by omega)
    simp only [Nat.add_zero, List.getElem_cons_zero] at hbyte
    rw [decodeNameLoop, dif_pos (by omega)]
    simp only [hbyte, if_true, List.map_nil, List.append_nil, Bool.false_eq_true, if_false]
  | cons label labels ih =>
    obtain ⟨fuel, rfl⟩ : ∃ n, fuel = n + 1 := ⟨fuel - 1, by simp at hfuel; omega⟩
    have hread := hlabel label (by simp)
    obtain ⟨hlen, hzero, hpointer⟩ :=
      lengthByte_of_label (List.length_pos_iff.mpr hread.ne_nil) hread.length_le
    have hle := h.length_le
    simp only [List.flatMap_cons, encodeLabel, List.append_assoc, List.length_append,
      List.length_cons] at h hle
    obtain ⟨hbytes, hrest⟩ := h.append
    rw [← List.singleton_append] at hbytes
    have hbyte := hbytes.append.1.getElem_eq 0 (by simp) (by omega)
    simp only [Nat.add_zero, List.getElem_cons_zero] at hbyte
    have htake : (msg.drop (offset + 1)).take label.length = label := hbytes.append.2.take_drop
    rw [List.length_cons, Nat.add_comm label.length, ← Nat.add_assoc] at hrest
    have hnext : decodeNameLoop msg fuel (acc ++ [toAsciiLowercase label]) _ false jumpEnd
        visited = _ :=
      ih (by simp at hfuel; omega) (fun l hl => hlabel l (List.mem_cons_of_mem _ hl)) hrest
    rw [decodeNameLoop, dif_pos (by omega)]
    simp only [hbyte, hzero, hpointer, if_false, hlen, htake, hread.utf8, if_true]
    rw [if_pos (by omega)]
    simp only [hnext, List.append_assoc, List.singleton_append, List.flatMap_cons, encodeLabel,
      List.length_append, List.length_cons, List.map_cons, Option.some.injEq, Prod.mk.injEq,
      true_and]
    omega

/-- **Labels.**  Where labels stand up to the root, `decode_name` makes a name of them in lower
case, and ends behind them. -/
theorem decodeName_labels {msg : List UInt8} {labels : List Text} {offset : Nat}
    (hlabel : ∀ label ∈ labels, IsReadable label)
    (h : StandsAt msg offset (labels.flatMap encodeLabel ++ [0])) :
    decodeName msg offset =
      some (nameOf (labels.map toAsciiLowercase),
        offset + (labels.flatMap encodeLabel ++ [0]).length) := by
  have hle := h.length_le
  have hcount : labels.length ≤ (labels.flatMap encodeLabel).length := by
    rw [List.length_flatMap]
    calc labels.length = (labels.map fun _ => 1).sum := by simp
      _ ≤ (labels.map fun label => (encodeLabel label).length).sum :=
        List.sum_le_sum fun label _ => by simp [encodeLabel]
  have hfuel : labels.length < decodeNameFuel msg := by
    rw [decodeNameFuel]
    rw [List.length_append, List.length_singleton] at hle
    omega
  have hloop : decodeNameLoop msg (decodeNameFuel msg) [] offset false offset [] = _ :=
    decodeNameLoop_standing hfuel hlabel h
  rw [decodeName, hloop]
  rfl

/-- **Names.**  Where a name stands in a message, it is decoded, and the decoder ends
behind it. -/
theorem decodeName_standing {msg : List UInt8} {name : Text} {offset : Nat}
    (hname : NameReadsBack name) (h : StandsAt msg offset (encodeName name)) :
    decodeName msg offset = some (name, offset + (encodeName name).length) := by
  obtain ⟨labels, rfl, hlabel⟩ := hname.labels
  have hencode : encodeName (nameOf labels) = labels.flatMap encodeLabel ++ [0] :=
    encodeName_nameOf fun label hmem => ⟨(hlabel label hmem).1.ne_nil, (hlabel label hmem).2⟩
  have hlower : labels.map toAsciiLowercase = labels := by
    conv_rhs => rw [← List.map_id labels]
    exact List.map_congr_left (lower_of_nameOf hname.lower)
  rw [hencode] at h ⊢
  rw [decodeName_labels (fun label hmem => (hlabel label hmem).1) h, hlower]

/-! ## Questions and records -/

theorem u16At_standing {msg : List UInt8} {x : UInt16} {offset : Nat}
    (h : StandsAt msg offset (beBytes16 x)) (hle : offset + 2 ≤ msg.length) :
    u16At msg offset hle = x :=
  h.octets16_eq (by omega) (by omega)

theorem u32At_standing {msg : List UInt8} {x : UInt32} {offset : Nat}
    (h : StandsAt msg offset (beBytes32 x)) (hle : offset + 4 ≤ msg.length) :
    u32At msg offset hle = x :=
  h.octets32_eq (by omega) (by omega) (by omega) (by omega)

@[simp] theorem length_beBytes16 (x : UInt16) : (beBytes16 x).length = 2 := rfl

@[simp] theorem length_beBytes32 (x : UInt32) : (beBytes32 x).length = 4 := rfl

theorem decodeQuestion_standing {msg : List UInt8} {question : DnsQuestion} {offset : Nat}
    (hname : NameReadsBack question.qname)
    (h : StandsAt msg offset (encodeQuestion question)) :
    decodeQuestion msg offset =
      some (question, offset + (encodeQuestion question).length) := by
  have hle := h.length_le
  obtain ⟨⟨hqname, hqtype⟩, hqclass⟩ := And.imp_left StandsAt.append h.append
  simp only [encodeQuestion, List.length_append, length_beBytes16, ← Nat.add_assoc]
    at hle hqclass ⊢
  rw [decodeQuestion, decodeName_standing hname hqname]
  simp only
  rw [dif_pos (by omega), u16At_standing hqtype, u16At_standing hqclass]

/-- The names in the data of a record are in normal form. -/
def RData.NamesNormal : RData → Prop
  | .ns name | .cname name | .mx _ name => IsName name
  | .soa mname rname .. => IsName mname ∧ IsName rname
  | .a _ | .aaaa _ | .unknown _ => True

/-- A record that survives the wire. -/
structure DnsRR.Normal (rr : DnsRR) : Prop where
  name : IsName rr.name
  typed : rr.Typed
  names : rr.rdata.NamesNormal
  length_le : (encodeRdata rr.rdata).length ≤ 65535

/-- The names in the data of a record come back from the wire. -/
def RData.NamesReadBack : RData → Prop
  | .ns name | .cname name | .mx _ name => NameReadsBack name
  | .soa mname rname .. => NameReadsBack mname ∧ NameReadsBack rname
  | .a _ | .aaaa _ | .unknown _ => True

/-- A record that comes back from the wire, with labels of any length that can be read. -/
structure DnsRR.ReadsBack (rr : DnsRR) : Prop where
  name : NameReadsBack rr.name
  typed : rr.Typed
  names : rr.rdata.NamesReadBack
  length_le : (encodeRdata rr.rdata).length ≤ 65535

theorem RData.NamesNormal.readBack {rdata : RData} (h : rdata.NamesNormal) :
    rdata.NamesReadBack := by
  cases rdata with
  | ns name => exact IsName.readsBack h
  | cname name => exact IsName.readsBack h
  | mx preference exchange => exact IsName.readsBack h
  | soa mname rname serial refresh retry expire minimum =>
    exact ⟨IsName.readsBack h.1, IsName.readsBack h.2⟩
  | a ip => trivial
  | aaaa ip => trivial
  | unknown data => trivial

theorem DnsRR.Normal.readsBack {rr : DnsRR} (h : rr.Normal) : rr.ReadsBack :=
  ⟨h.name.readsBack, h.typed, h.names.readBack, h.length_le⟩

theorem decodeSoa_standing {msg : List UInt8} {mname rname : Text}
    {serial refresh retry expire minimum : UInt32} {start : Nat} (hmname : NameReadsBack mname)
    (hrname : NameReadsBack rname)
    (hs : StandsAt msg start
      (encodeRdata (.soa mname rname serial refresh retry expire minimum)))
    (hle : start + (encodeRdata (.soa mname rname serial refresh retry expire minimum)).length ≤
      msg.length) :
    decodeSoa msg start _ hle = some (.soa mname rname serial refresh retry expire minimum) := by
  obtain ⟨hs, hminimum⟩ := hs.append
  obtain ⟨hs, hexpire⟩ := hs.append
  obtain ⟨hs, hretry⟩ := hs.append
  obtain ⟨hs, hrefresh⟩ := hs.append
  obtain ⟨hs, hserial⟩ := hs.append
  obtain ⟨hfirst, hsecond⟩ := hs.append
  simp only [List.length_append, length_beBytes32, ← Nat.add_assoc]
    at hserial hrefresh hretry hexpire hminimum
  rw [decodeSoa, decodeName_standing hmname hfirst]
  simp only [decodeName_standing hrname hsecond]
  rw [dif_pos (by simp [encodeRdata]; omega), u32At_standing hserial, u32At_standing hrefresh,
    u32At_standing hretry, u32At_standing hexpire, u32At_standing hminimum]

theorem decodeRdata_standing {msg : List UInt8} {name : Text} {rtype cls : UInt16} {ttl : UInt32}
    {rdata : RData} {start : Nat} (htyped : DnsRR.Typed ⟨name, rtype, cls, ttl, rdata⟩)
    (hnames : rdata.NamesReadBack) (h : StandsAt msg start (encodeRdata rdata))
    (hle : start + (encodeRdata rdata).length ≤ msg.length) :
    decodeRdata msg rtype start (encodeRdata rdata).length hle = some rdata := by
  cases rdata with
  | a ip =>
    obtain rfl : rtype = typeA := htyped
    have hfour : (encodeRdata (.a ip)).length = 4 := rfl
    have h0 := h.getElem_eq 0 (by simp [hfour]) (by omega)
    have h1 := h.getElem_eq 1 (by simp [hfour]) (by omega)
    have h2 := h.getElem_eq 2 (by simp [hfour]) (by omega)
    have h3 := h.getElem_eq 3 (by simp [hfour]) (by omega)
    simp only [Nat.add_zero] at h0
    rw [decodeRdata_a hle (Nat.le_of_eq hfour.symm), h0, h1, h2, h3]
    rfl
  | aaaa ip =>
    obtain rfl : rtype = typeAaaa := htyped
    have hsixteen : (encodeRdata (.aaaa ip)).length = 16 := ip.2
    have htake := h.take_drop
    rw [hsixteen] at htake
    rw [decodeRdata_aaaa hle (Nat.le_of_eq hsixteen.symm)]
    exact congrArg (fun octets => some (RData.aaaa octets)) (Subtype.ext htake)
  | ns target =>
    obtain rfl : rtype = typeNs := htyped
    rw [decodeRdata_ns, decodeName_standing hnames h]
    rfl
  | cname target =>
    obtain rfl : rtype = typeCname := htyped
    rw [decodeRdata_cname, decodeName_standing hnames h]
    rfl
  | mx preference exchange =>
    obtain rfl : rtype = typeMx := htyped
    obtain ⟨hpreference, hexchange⟩ := h.append
    rw [length_beBytes16] at hexchange
    have hpos : 0 < (encodeName exchange).length := by simp [encodeName]
    have hlen : (encodeRdata (.mx preference exchange)).length =
        2 + (encodeName exchange).length := List.length_append
    rw [decodeRdata_mx, dif_pos (by omega), decodeName_standing hnames hexchange, Option.map_some,
      u16At_standing hpreference]
  | soa mname rname serial refresh retry expire minimum =>
    obtain rfl : rtype = typeSoa := htyped
    rw [decodeRdata_soa]
    exact decodeSoa_standing hnames.1 hnames.2 h hle
  | unknown data =>
    rw [decodeRdata_unknown hle htyped]
    exact congrArg (fun bytes => some (RData.unknown bytes)) h.take_drop

/-- **Records.**  Where a record stands in a message, it is decoded, whatever stands
before it and behind it. -/
theorem decodeRr_standing {msg : List UInt8} {rr : DnsRR} {offset : Nat} (hrr : rr.ReadsBack)
    (h : StandsAt msg offset (encodeRr rr)) :
    decodeRr msg offset = some (rr, offset + (encodeRr rr).length) := by
  have hle := h.length_le
  obtain ⟨hs, hrdata⟩ := h.append
  obtain ⟨hs, hrdlength⟩ := hs.append
  obtain ⟨hs, httl⟩ := hs.append
  obtain ⟨hs, hcls⟩ := hs.append
  obtain ⟨hname, hrtype⟩ := hs.append
  simp only [encodeRr, List.length_append, length_beBytes16, length_beBytes32, ← Nat.add_assoc]
    at hle hcls httl hrdlength hrdata ⊢
  have hrdlen : (UInt16.ofNat (encodeRdata rr.rdata).length).toNat =
      (encodeRdata rr.rdata).length := by
    rw [UInt16.toNat_ofNat']
    exact Nat.mod_eq_of_lt (Nat.lt_succ_of_le hrr.length_le)
  rw [decodeRr, decodeName_standing hrr.name hname]
  simp only [dif_pos (show offset + (encodeName rr.name).length + 10 ≤ msg.length by omega),
    u16At_standing hrtype, u16At_standing hcls, u32At_standing httl, u16At_standing hrdlength,
    hrdlen]
  rw [dif_pos (by omega), decodeRdata_standing hrr.typed hrr.names hrdata]
  rfl

/-- A loop of `decode_message` reads the items that stand where it is. -/
theorem decodeMany_standing {α : Type} {msg : List UInt8} {encode : α → List UInt8}
    {decode : Nat → Option (α × Nat)} {items : List α} {offset : Nat}
    (hitem : ∀ item ∈ items, ∀ offset, StandsAt msg offset (encode item) →
      decode offset = some (item, offset + (encode item).length))
    (h : StandsAt msg offset (items.flatMap encode)) :
    decodeMany decode items.length offset =
      some (items, offset + (items.flatMap encode).length) := by
  induction items generalizing offset with
  | nil => rfl
  | cons item items ih =>
    rw [List.flatMap_cons] at h
    have hrest := ih (fun i hi => hitem i (List.mem_cons_of_mem _ hi)) h.append.2
    rw [List.length_cons, decodeMany, hitem item (by simp) offset h.append.1]
    simp only [hrest, Option.map_some, List.flatMap_cons, List.length_append, Nat.add_assoc]

/-! ## Whole messages -/

/-- A message that survives the wire: the counts of its header are those of its
sections, and its names and records are in normal form. -/
structure DnsMessage.Normal (m : DnsMessage) : Prop where
  qdcount : m.header.qdcount.toNat = m.questions.length
  ancount : m.header.ancount.toNat = m.answers.length
  nscount : m.header.nscount.toNat = m.authorities.length
  arcount : m.header.arcount.toNat = m.additionals.length
  questions : ∀ question ∈ m.questions, IsName question.qname
  answers : ∀ rr ∈ m.answers, rr.Normal
  authorities : ∀ rr ∈ m.authorities, rr.Normal
  additionals : ∀ rr ∈ m.additionals, rr.Normal

/-- **The round trip.**  Every message in normal form is decoded from its encoding. -/
theorem decodeMessage_encodeMessage (m : DnsMessage) (h : m.Normal) :
    decodeMessage (encodeMessage m) = some m := by
  have hs := StandsAt.self (encodeMessage m)
  obtain ⟨hs, hadditionals⟩ := hs.append
  obtain ⟨hs, hauthorities⟩ := hs.append
  obtain ⟨hs, hanswers⟩ := hs.append
  obtain ⟨-, hquestions⟩ := hs.append
  simp only [List.length_append, Nat.zero_add, ← Nat.add_assoc]
    at hquestions hanswers hauthorities hadditionals
  have hheader : (encodeHeader m.header).length = 12 := rfl
  rw [hheader] at hquestions hanswers hauthorities hadditionals
  have hq := decodeMany_standing
    (fun question hmem offset => decodeQuestion_standing (h.questions question hmem).readsBack)
    hquestions
  have han := decodeMany_standing
    (fun rr hmem offset => decodeRr_standing (h.answers rr hmem).readsBack) hanswers
  have hns := decodeMany_standing
    (fun rr hmem offset => decodeRr_standing (h.authorities rr hmem).readsBack) hauthorities
  have har := decodeMany_standing
    (fun rr hmem offset => decodeRr_standing (h.additionals rr hmem).readsBack) hadditionals
  simp only [decodeMessage, decodeHeader_encodeMessage, Option.bind_eq_bind, Option.bind_some,
    h.qdcount, hq, h.ancount, han, h.nscount, hns, h.arcount, har]
  rfl

/-! ## A reply on the wire -/

/-- A name of two labels. -/
def demoLabels : List Text := [utf8 "mail", utf8 "example"]

theorem demo_isName : IsName (nameOf demoLabels) := by
  refine ⟨by decide, by decide, demoLabels, rfl, ?_⟩
  intro label hlabel
  simp only [demoLabels, List.mem_cons, List.not_mem_nil, or_false] at hlabel
  rcases hlabel with rfl | rfl
  · exact ⟨by decide, by decide, by decide⟩
  · exact ⟨by decide, by decide, by decide⟩

/-- A reply with an address, a mail exchange and a start of authority. -/
def demoWireReply : DnsMessage where
  header := { id := 7, flags := 0x8180, qdcount := 1, ancount := 2, nscount := 1, arcount := 0 }
  questions := [⟨nameOf demoLabels, typeMx, classIn⟩]
  answers :=
    [⟨nameOf demoLabels, typeMx, classIn, 300, .mx 10 (nameOf demoLabels)⟩,
      ⟨nameOf demoLabels, typeA, classIn, 60, .a ⟨192, 0, 2, 1⟩⟩]
  authorities :=
    [⟨rootName, typeSoa, classIn, 3600,
      .soa (nameOf demoLabels) rootName 2024 7200 900 1209600 86400⟩]
  additionals := []

/-- It comes back from the wire. -/
theorem demo_roundTrip : decodeMessage (encodeMessage demoWireReply) = some demoWireReply := by
  have hroot : IsName rootName := ⟨by decide, by decide, [], rfl, by simp⟩
  refine decodeMessage_encodeMessage demoWireReply ⟨rfl, rfl, rfl, rfl, ?_, ?_, ?_, ?_⟩
  · intro question hmem
    obtain rfl := List.mem_singleton.mp hmem
    exact demo_isName
  · intro rr hmem
    simp only [demoWireReply, List.mem_cons, List.not_mem_nil, or_false] at hmem
    rcases hmem with rfl | rfl
    · exact ⟨demo_isName, rfl, demo_isName, by decide⟩
    · exact ⟨demo_isName, rfl, trivial, by decide⟩
  · intro rr hmem
    obtain rfl := List.mem_singleton.mp hmem
    exact ⟨hroot, rfl, ⟨demo_isName, hroot⟩, by decide⟩
  · intro rr hmem
    exact absurd hmem (by simp [demoWireReply])

end PpcaNetwork.Dns
