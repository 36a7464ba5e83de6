import PpcaNetwork.Lib.Url
import PpcaNetwork.Minicaddy.Files

/-!
# What a browser makes of a directory listing

`dir_listing_html` writes the request path and the names of the entries into the page as they
are, as text and as the value of an attribute.

* `linkText`, `linkTarget` — what the link of an entry shows, and the path of the entry.
* `listingTokens` — the tokens of a page that shows a heading and some links.
* `IsListing` — the page is such a page, with one link for each entry.
* `dir_listing_iff` — the names and paths for which it is.
-/

namespace PpcaNetwork.Minicaddy

open Html

/-! ## Pages of links -/

/-- How an entry is shown. -/
def linkText (entry : DirEntry) : Text :=
  if entry.isDir then entry.name ++ utf8 "/" else entry.name

/-- The path of an entry: its name under the path of its directory. -/
def linkTarget (path : Text) (entry : DirEntry) : Text :=
  trimEndMatches 0x2F path ++ utf8 "/" ++ linkText entry

/-- The link of an entry: its target and its text. -/
def entryLink (path : Text) (entry : DirEntry) : Text × Text :=
  (linkTarget path entry, linkText entry)

/-- A link with the value of its `href` and its text, and the end of its line. -/
def linkTokens (l : Text × Text) : List Token :=
  .startTag (utf8 "a") [(utf8 "href", l.1)] ::
    (chars l.2 ++ .endTag (utf8 "a") :: chars (utf8 "\n"))

/-- Up to the text of `title`. -/
def titleTokens : List Token :=
  .doctype :: chars (utf8 "\n") ++ [.startTag (utf8 "html") [], .startTag (utf8 "head") [],
    .startTag (utf8 "title") []] ++ chars (utf8 "Index of ")

/-- From there up to the text of the heading. -/
def headingTokens : List Token :=
  .endTag (utf8 "head") :: chars (utf8 "\n") ++ .startTag (utf8 "body") [] :: chars (utf8 "\n") ++
    .startTag (utf8 "h1") [] :: chars (utf8 "Index of ")

/-- From the end of the heading up to the links. -/
def preTokens : List Token :=
  chars (utf8 "\n") ++ .startTag (utf8 "hr") [] :: chars (utf8 "\n") ++
    .startTag (utf8 "pre") [] :: chars (utf8 "\n")

/-- The end of the page. -/
def lastTokens : List Token :=
  chars (utf8 "\n") ++ .startTag (utf8 "hr") [] :: chars (utf8 "\n") ++
    .endTag (utf8 "body") :: chars (utf8 "\n") ++ [.endTag (utf8 "html")]

/-- What follows the heading. -/
def linksTokens (links : List (Text × Text)) : List Token :=
  links.flatMap linkTokens ++ .endTag (utf8 "pre") :: lastTokens

/-- The page of a listing: text under the heading and under the links, and no other elements. -/
def listingTokens (heading : Text) (links : List (Text × Text)) : List Token :=
  titleTokens ++ (chars heading ++ .endTag (utf8 "title") :: (headingTokens ++ (chars heading ++
    .endTag (utf8 "h1") :: (preTokens ++ linksTokens links))))

/-- The page is a listing of the entries: there is one link for each of them, which shows the
entry, and following it asks for the entry by its path. -/
structure IsListing (refs : References) (entries : Option (List DirEntry)) (path : Text)
    (links : List (Text × Text)) : Prop where
  tokens : tokenize (dirListingHtml entries path) = listingTokens (normalizeNewlines path) links
  links : (links.map fun l => (Url.followed (refs.decode true l.1), refs.decode false l.2)).Perm
    ((entries.getD []).map fun e => (some (linkTarget path e), linkText e))

/-- The elements of a listing. -/
def listingElements : List Text :=
  [utf8 "html", utf8 "head", utf8 "title", utf8 "body", utf8 "h1", utf8 "hr", utf8 "pre", utf8 "a"]

theorem not_startTag_mem_chars (name : Text) (attributes : List (Text × Text)) (s : Text) :
    .startTag name attributes ∉ chars s := by
  intro h
  obtain ⟨b, -, hb⟩ := List.mem_map.mp h
  cases hb

/-- A listing has no other elements, and no attributes but those of its links. -/
theorem startTag_mem_listingTokens {heading name : Text} {attributes : List (Text × Text)}
    {links : List (Text × Text)} (h : .startTag name attributes ∈ listingTokens heading links) :
    name ∈ listingElements ∧ (attributes = [] ∨
      ∃ l ∈ links, name = utf8 "a" ∧ attributes = [(utf8 "href", l.1)]) := by
  simp only [listingTokens, titleTokens, headingTokens, preTokens, linksTokens, lastTokens,
    linkTokens, List.mem_append, List.mem_cons, List.mem_flatMap, not_startTag_mem_chars,
    Token.startTag.injEq, List.not_mem_nil, reduceCtorEq, false_or, or_false] at h
  simp only [listingElements, List.mem_cons, List.not_mem_nil, or_false]
  grind

/-! ## The heading -/

/-- The page around its lines. -/
theorem dirListingHtml_eq (entries : Option (List DirEntry)) (path : Text) :
    ∃ es : List DirEntry, es.Perm (entries.getD []) ∧ dirListingHtml entries path =
      utf8 "<!DOCTYPE html>\n<html><head><title>Index of " ++ (path ++ 0x3C :: (utf8 "/title>" ++
        (utf8 "</head>\n<body>\n<h1>Index of " ++ (path ++ 0x3C :: (utf8 "/h1>\n<hr>\n<pre>\n" ++
          (es.flatMap (fun e => entryLine (trimEndMatches 0x2F path) e ++ utf8 "\n") ++
            utf8 "</pre>\n<hr>\n</body>\n</html>")))))) := by
  have htitle : utf8 "</title></head>\n<body>\n<h1>Index of " =
      0x3C :: (utf8 "/title>" ++ utf8 "</head>\n<body>\n<h1>Index of ") := by decide +kernel
  have hheading : utf8 "</h1>\n<hr>\n<pre>\n" = 0x3C :: utf8 "/h1>\n<hr>\n<pre>\n" := by
    decide +kernel
  let line := entryLine (trimEndMatches 0x2F path)
  refine ⟨(entries.getD []).insertionSort fun a b => line a ≤ line b,
    List.perm_insertionSort _ _, ?_⟩
  have hsorted : ((entries.getD []).map line).insertionSort (· ≤ ·) =
      ((entries.getD []).insertionSort fun a b => line a ≤ line b).map line :=
    (List.map_insertionSort _ _ line (entries.getD []) fun _ _ _ _ => Iff.rfl).symm
  have hlines : (((entries.getD []).map line).insertionSort (· ≤ ·)).flatMap (· ++ utf8 "\n") =
      ((entries.getD []).insertionSort fun a b => line a ≤ line b).flatMap fun e =>
        line e ++ utf8 "\n" := by
    rw [hsorted, List.flatMap_map]
  rw [← hlines]
  simp only [dirListingHtml, htitle, hheading, List.append_assoc, List.cons_append, line]

set_option maxRecDepth 4000 in
theorem tokensFrom_title (page : Text) :
    tokensFrom .data (utf8 "<!DOCTYPE html>\n<html><head><title>Index of " ++ page) =
      titleTokens ++ tokensFrom (.raw (utf8 "title") []) page := rfl

theorem tokensFrom_titleClose (page : Text) :
    tokensFrom (.raw (utf8 "title") [0x3C]) (utf8 "/title>" ++ page) =
      .endTag (utf8 "title") :: tokensFrom .data page := rfl

theorem tokensFrom_heading (page : Text) :
    tokensFrom .data (utf8 "</head>\n<body>\n<h1>Index of " ++ page) =
      headingTokens ++ tokensFrom .data page := rfl

theorem tokensFrom_pre (page : Text) :
    tokensFrom .data (0x3C :: (utf8 "/h1>\n<hr>\n<pre>\n" ++ page)) =
      .endTag (utf8 "h1") :: (preTokens ++ tokensFrom .data page) := rfl

/-- The heading stays text exactly when nothing in it begins markup. -/
theorem tokensFrom_page_iff (heading page : Text) (links : List (Text × Text)) :
    tokensFrom .data (utf8 "<!DOCTYPE html>\n<html><head><title>Index of " ++
      (heading ++ 0x3C :: (utf8 "/title>" ++ (utf8 "</head>\n<body>\n<h1>Index of " ++
        (heading ++ 0x3C :: (utf8 "/h1>\n<hr>\n<pre>\n" ++ page)))))) =
      listingTokens heading links ↔
    PlainText heading ∧ tokensFrom .data page = linksTokens links := by
  have hbody : ∀ rest, tokensFrom .data (utf8 "</head>\n<body>\n<h1>Index of " ++
      (heading ++ 0x3C :: (utf8 "/h1>\n<hr>\n<pre>\n" ++ page))) =
        headingTokens ++ (chars heading ++ .endTag (utf8 "h1") :: (preTokens ++ rest)) ↔
      PlainText heading ∧ tokensFrom .data page = rest := by
    intro rest
    rw [tokensFrom_heading, List.append_cancel_left_eq, tokensFrom_data_iff, tokensFrom_pre,
      List.cons.injEq, List.append_cancel_left_eq, and_iff_right rfl]
  rw [tokensFrom_title, listingTokens, List.append_cancel_left_eq]
  constructor
  · intro h
    exact (hbody _).mp (eq_of_tokensFrom_raw (tokensFrom_titleClose _) h)
  · intro h
    rw [tokensFrom_raw (tokensFrom_titleClose _) h.1, (hbody _).mpr h]

/-! ## The lines -/

theorem entryLine_eq (path : Text) (e : DirEntry) :
    entryLine (trimEndMatches 0x2F path) e ++ utf8 "\n" =
      utf8 "<a href=\"" ++ (linkTarget path e ++ 0x22 :: (utf8 ">" ++
        (linkText e ++ 0x3C :: utf8 "/a>\n"))) := by
  have hclose : utf8 "\">" = 0x22 :: utf8 ">" := by decide +kernel
  have hend : utf8 "</a>" ++ utf8 "\n" = 0x3C :: utf8 "/a>\n" := by decide +kernel
  have hdirClose : utf8 "/\">" = utf8 "/" ++ 0x22 :: utf8 ">" := by decide +kernel
  have hdirEnd : utf8 "/</a>" ++ utf8 "\n" = utf8 "/" ++ 0x3C :: utf8 "/a>\n" := by decide +kernel
  unfold entryLine linkTarget linkText
  split
  · simp only [List.append_assoc, List.cons_append, hdirClose, hdirEnd]
  · simp only [List.append_assoc, List.cons_append, hclose, hend]

theorem tokensFrom_href (page : Text) :
    tokensFrom .data (utf8 "<a href=\"" ++ page) =
      tokensFrom (.tag ⟨false, utf8 "a", []⟩ (.value (some 0x22) (utf8 "href") [])) page := rfl

theorem tokensFrom_linkEnd (value page : Text) :
    tokensFrom (.tag ((⟨false, utf8 "a", []⟩ : Tag).commit (utf8 "href") value) .between)
      (utf8 ">" ++ page) =
      .startTag (utf8 "a") [(utf8 "href", value)] :: tokensFrom .data page := rfl

theorem tokensFrom_linkClose (page : Text) :
    tokensFrom .data (0x3C :: (utf8 "/a>\n" ++ page)) =
      .endTag (utf8 "a") :: (chars (utf8 "\n") ++ tokensFrom .data page) := rfl

theorem mem_linkTarget_of_mem {path : Text} {e : DirEntry} {b : UInt8} (h : b ∈ linkText e) :
    b ∈ linkTarget path e := List.mem_append_right _ h

/-- Text without a `<` begins no markup. -/
theorem plainText_of_not_mem {s : Text} (h : 0x3C ∉ s) : PlainText s := by
  induction s with
  | nil => exact .nil
  | cons b s ih =>
    obtain ⟨hb, hs⟩ := not_or.mp (mt List.mem_cons.mpr h)
    exact (plainText_cons_of_ne (Ne.symm hb) s).mpr (ih hs)

/-- The line of an entry whose path a URL can have is one link. -/
theorem tokensFrom_entryLine {path : Text} {e : DirEntry}
    (h : ∀ b ∈ linkTarget path e, Url.alwaysEncoded b = false) (page : Text) :
    tokensFrom .data (normalizeNewlines
      (entryLine (trimEndMatches 0x2F path) e ++ utf8 "\n" ++ page)) =
      linkTokens (entryLink path e) ++ tokensFrom .data (normalizeNewlines page) := by
  have hbyte : ∀ c, Url.alwaysEncoded c = true → c ∉ linkTarget path e :=
    fun _ hc => Url.not_mem_of_bytes h hc
  have hreturn : 0x0D ∉ entryLine (trimEndMatches 0x2F path) e ++ utf8 "\n" := by
    have hhref : 0x0D ∉ utf8 "<a href=\"" ∧ 0x0D ∉ utf8 ">" ∧ 0x0D ∉ utf8 "/a>\n" := by
      decide +kernel
    have htarget : 0x0D ∉ linkTarget path e := hbyte _ rfl
    have htext : 0x0D ∉ linkText e := mt mem_linkTarget_of_mem htarget
    simp [entryLine_eq, hhref, htarget, htext]
  have hplain : PlainText (linkText e) :=
    plainText_of_not_mem (mt mem_linkTarget_of_mem (hbyte 0x3C rfl))
  rw [normalizeNewlines_append_of_not_mem hreturn, entryLine_eq]
  simp only [List.append_assoc, List.cons_append]
  rw [tokensFrom_href, tokensFrom_value (hbyte 0x22 rfl), List.nil_append, tokensFrom_linkEnd,
    (tokensFrom_data_iff _ _ _).mpr ⟨hplain, tokensFrom_linkClose _⟩]
  simp [linkTokens, entryLink]

theorem tokensFrom_lines {path : Text} {es : List DirEntry}
    (h : ∀ e ∈ es, ∀ b ∈ linkTarget path e, Url.alwaysEncoded b = false) :
    tokensFrom .data (normalizeNewlines
      (es.flatMap (fun e => entryLine (trimEndMatches 0x2F path) e ++ utf8 "\n") ++
        utf8 "</pre>\n<hr>\n</body>\n</html>")) = linksTokens (es.map (entryLink path)) := by
  induction es with
  | nil => rfl
  | cons e es ih =>
    rw [List.flatMap_cons, List.append_assoc, tokensFrom_entryLine (h e List.mem_cons_self),
      ih fun e' he' => h e' (List.mem_cons_of_mem _ he'), List.map_cons]
    simp [linksTokens]

/-- The links can be read from the tokens. -/
theorem linksTokens_injective : Function.Injective linksTokens := by
  have hcons : ∀ l links, linksTokens (l :: links) = .startTag (utf8 "a") [(utf8 "href", l.1)] ::
      (chars l.2 ++ .endTag (utf8 "a") :: (chars (utf8 "\n") ++ linksTokens links)) := by
    simp [linksTokens, linkTokens]
  intro links links' h
  induction links generalizing links' with
  | nil =>
    cases links' with
    | nil => rfl
    | cons l links' =>
      rw [hcons] at h
      cases (List.cons.inj h).1
  | cons l links ih =>
    cases links' with
    | nil =>
      rw [hcons] at h
      cases (List.cons.inj h).1
    | cons l' links' =>
      rw [hcons, hcons] at h
      obtain ⟨hstart, htail⟩ := List.cons.inj h
      obtain ⟨htext, -, hlinks⟩ := chars_append_cons_inj rfl rfl htail
      have htarget : l.1 = l'.1 := by simpa using hstart
      rw [Prod.ext htarget htext, ih (List.append_cancel_left hlinks)]

/-! ## The listing of a directory -/

section Listing

variable {refs : References} {entries : Option (List DirEntry)} {path : Text}

/-- The tokens of a page are those of a listing when those of its lines are. -/
theorem exists_lines (entries : Option (List DirEntry)) (path : Text) :
    ∃ es : List DirEntry, es.Perm (entries.getD []) ∧
      ∀ links, tokenize (dirListingHtml entries path) =
          listingTokens (normalizeNewlines path) links ↔
        PlainText path ∧ tokensFrom .data (normalizeNewlines
          (es.flatMap (fun e => entryLine (trimEndMatches 0x2F path) e ++ utf8 "\n") ++
            utf8 "</pre>\n<hr>\n</body>\n</html>")) = linksTokens links := by
  obtain ⟨es, hperm, hpage⟩ := dirListingHtml_eq entries path
  refine ⟨es, hperm, fun links => ?_⟩
  have htitle : 0x0D ∉ utf8 "<!DOCTYPE html>\n<html><head><title>Index of " := by decide +kernel
  have hclose : 0x0D ∉ utf8 "/title>" := by decide +kernel
  have hheading : 0x0D ∉ utf8 "</head>\n<body>\n<h1>Index of " := by decide +kernel
  have hpre : 0x0D ∉ utf8 "/h1>\n<hr>\n<pre>\n" := by decide +kernel
  have hlt : ∀ s t, normalizeNewlines (s ++ 0x3C :: t) =
      normalizeNewlines s ++ 0x3C :: normalizeNewlines t := by
    intro s t
    rw [normalizeNewlines_append_cons (by decide), normalizeNewlines_cons (by decide)]
  rw [tokenize, hpage, normalizeNewlines_append_of_not_mem htitle, hlt,
    normalizeNewlines_append_of_not_mem hclose, normalizeNewlines_append_of_not_mem hheading, hlt,
    normalizeNewlines_append_of_not_mem hpre, tokensFrom_page_iff, plainText_normalizeNewlines]

/-- Numbers that are no greater than others, with the same sum. -/
theorem eq_of_sum_eq {α : Type} {f g : α → Nat} {l : List α} (hle : ∀ a ∈ l, f a ≤ g a)
    (h : (l.map f).sum = (l.map g).sum) : ∀ a ∈ l, f a = g a := by
  intro a ha
  by_contra hne
  have hlt := List.sum_lt_sum f g hle ⟨a, ha, lt_of_le_of_ne (hle a ha) hne⟩
  omega

/-- What the links of a listing are: each shows its entry and leads to it as it is written. -/
theorem IsListing.decoded {links : List (Text × Text)} (h : IsListing refs entries path links) :
    PlainText path ∧ ∀ e ∈ entries.getD [],
      Url.followed (refs.decode true (linkTarget path e)) = some (linkTarget path e) ∧
        refs.decode false (linkText e) = linkText e := by
  obtain ⟨es, hperm, htokens⟩ := exists_lines entries path
  obtain ⟨hplain, hlines⟩ := (htokens links).mp h.tokens
  refine ⟨hplain, ?_⟩
  -- what is asked for are bytes that a URL can have, so that every line is one link
  have hbytes : ∀ e ∈ es, ∀ b ∈ linkTarget path e, Url.alwaysEncoded b = false := by
    intro e he
    have hmem := h.links.mem_iff.mpr (List.mem_map_of_mem (hperm.mem_iff.mp he))
    obtain ⟨l, -, hl⟩ := List.mem_map.mp hmem
    exact Url.followed_bytes (Prod.ext_iff.mp hl).1
  obtain rfl : es.map (entryLink path) = links := by
    rw [tokensFrom_lines hbytes] at hlines
    exact linksTokens_injective hlines
  have hlinks : (es.map fun e => (Url.followed (refs.decode true (linkTarget path e)),
      refs.decode false (linkText e))).Perm
      (es.map fun e => (some (linkTarget path e), linkText e)) := by
    have hsame := h.links.trans (hperm.map _).symm
    rwa [List.map_map] at hsame
  -- no text becomes heavier, and all together they weigh the same
  have htexts : ∀ e ∈ es, refs.decode false (linkText e) = linkText e := by
    have hsum : (es.map fun e => weigh Url.urlWeight (refs.decode false (linkText e))).sum =
        (es.map fun e => weigh Url.urlWeight (linkText e)).sum := by
      have heq := ((hlinks.map Prod.snd).map (weigh Url.urlWeight)).sum_eq
      rwa [List.map_map, List.map_map, List.map_map, List.map_map] at heq
    have hle : ∀ e ∈ es, weigh Url.urlWeight (refs.decode false (linkText e)) ≤
        weigh Url.urlWeight (linkText e) :=
      fun e _ => References.weigh_decode_le Url.outweighs_urlWeight (by simp)
    intro e he
    exact References.decode_eq_of_weigh Url.outweighs_urlWeight (by simp)
      (eq_of_sum_eq hle hsum e he).ge
  intro e he
  have hmem := hperm.mem_iff.mpr he
  refine ⟨?_, htexts e hmem⟩
  -- the link that leads to the entry shows the same, so that it is the entry's own
  obtain ⟨e', he', hl⟩ := List.mem_map.mp (hlinks.mem_iff.mpr (List.mem_map_of_mem hmem))
  obtain ⟨htarget, htext⟩ := Prod.mk.inj hl
  rw [htexts e' he'] at htext
  have hsame : linkTarget path e' = linkTarget path e := by rw [linkTarget, htext, linkTarget]
  rwa [hsame] at htarget

/-- A link that leads to where it says is followed as it is written. -/
theorem decode_of_followed {link : Text}
    (h : Url.followed (refs.decode true link) = some link) :
    refs.decode true link = link ∧ Url.Literal link := by
  have hnull : 0 ∉ link := Url.not_mem_of_bytes (Url.followed_bytes h) rfl
  have hdecode := References.decode_eq_of_weigh Url.outweighs_urlWeight (fun _ => hnull)
    (Url.weigh_followed_le h)
  rw [hdecode] at h
  exact ⟨hdecode, Url.followed_eq_self_iff.mp h⟩

/-- **When a listing is what it should be.**  Exactly when nothing in the path begins markup, and
the path of every entry is asked for as it is written and has no character reference in it, nor
has the text of its link. -/
theorem dir_listing_iff (refs : References) (entries : Option (List DirEntry)) (path : Text) :
    (∃ links, IsListing refs entries path links) ↔
      PlainText path ∧ ∀ e ∈ entries.getD [], Url.Literal (linkTarget path e) ∧
        refs.NoReference true (linkTarget path e) ∧ refs.NoReference false (linkText e) := by
  have hnull : ∀ {e}, Url.Literal (linkTarget path e) → 0 ∉ linkTarget path e :=
    fun hliteral => Url.not_mem_of_bytes hliteral.bytes rfl
  have hiff : ∀ {e}, Url.Literal (linkTarget path e) →
      (refs.decode true (linkTarget path e) = linkTarget path e ↔
        refs.NoReference true (linkTarget path e)) ∧
      (refs.decode false (linkText e) = linkText e ↔ refs.NoReference false (linkText e)) :=
    fun hliteral => ⟨References.decode_eq_iff (hnull hliteral),
      References.decode_eq_iff (mt mem_linkTarget_of_mem (hnull hliteral))⟩
  constructor
  · rintro ⟨links, h⟩
    obtain ⟨hplain, hentries⟩ := h.decoded
    refine ⟨hplain, fun e he => ?_⟩
    obtain ⟨hfollowed, htext⟩ := hentries e he
    obtain ⟨hdecode, hliteral⟩ := decode_of_followed hfollowed
    exact ⟨hliteral, (hiff hliteral).1.mp hdecode, (hiff hliteral).2.mp htext⟩
  · rintro ⟨hplain, hentries⟩
    obtain ⟨es, hperm, htokens⟩ := exists_lines entries path
    have hes : ∀ e ∈ es, Url.Literal (linkTarget path e) :=
      fun e he => (hentries e (hperm.mem_iff.mp he)).1
    refine ⟨es.map (entryLink path), (htokens _).mpr ⟨hplain, ?_⟩, ?_⟩
    · exact tokensFrom_lines fun e he => (hes e he).bytes
    · rw [List.map_map]
      refine List.Perm.trans (List.Perm.of_eq (List.map_congr_left fun e he => ?_)) (hperm.map _)
      obtain ⟨hliteral, htarget, htext⟩ := hentries e (hperm.mem_iff.mp he)
      simp only [Function.comp_apply, entryLink, (hiff hliteral).1.mpr htarget,
        (hiff hliteral).2.mpr htext, Url.followed_eq_self_iff.mpr hliteral]

end Listing

/-- A file whose name is an element: the page has it, whatever references a browser knows. -/
theorem demo_image_in_listing :
    .startTag (utf8 "img") [(utf8 "src", utf8 "x"), (utf8 "onerror", utf8 "alert(1)")] ∈
        tokenize (dirListingHtml (some [⟨utf8 "<img src=x onerror=alert(1)>", false⟩]) (utf8 "/")) ∧
      ∀ refs, ¬ ∃ links, IsListing refs (some [⟨utf8 "<img src=x onerror=alert(1)>", false⟩])
        (utf8 "/") links := by
  have hmem : .startTag (utf8 "img") [(utf8 "src", utf8 "x"), (utf8 "onerror", utf8 "alert(1)")] ∈
      tokenize (dirListingHtml (some [⟨utf8 "<img src=x onerror=alert(1)>", false⟩])
        (utf8 "/")) := by
    decide +kernel
  refine ⟨hmem, ?_⟩
  rintro refs ⟨links, h⟩
  rw [h.tokens] at hmem
  have hname := (startTag_mem_listingTokens hmem).1
  revert hname
  decide +kernel

end PpcaNetwork.Minicaddy
