import PpcaNetwork.Lib.Exec
import PpcaNetwork.Lib.Lines

/-!
# The Caddyfile

`minicaddy/src/config.rs`: the parser of the configuration file, on the text of the file.
Texts are lists of characters, and the reading of a number is a parameter.

* `isWhitespace`, `lines`, `splitOnce` and the definitions after them — the functions on
  `str` that the parser uses.
* `Site` — `SiteConfig`.
* `parseAddress`, `applyDirective`, `parseBlock`, `fromCaddyfile` — the parser; an
  `expect` that fails panics.
* `reading` — the address and the directives that stand in a block.
* `parseBlock_eq` — a block is parsed by what stands in it.
-/

namespace PpcaNetwork.Minicaddy.Caddyfile

/-- A text as the parser sees it. -/
abbrev Chars := List Char

/-! ## Texts -/

/-- `char::is_whitespace`. -/
def isWhitespace (c : Char) : Bool :=
  let n := c.toNat
  (0x09 ≤ n && n ≤ 0x0D) || n = 0x20 || n = 0x85 || n = 0xA0 || n = 0x1680 ||
    (0x2000 ≤ n && n ≤ 0x200A) || n = 0x2028 || n = 0x2029 || n = 0x202F || n = 0x205F ||
    n = 0x3000

/-- `str::trim`. -/
def trim (s : Chars) : Chars := strip isWhitespace s

/-- `str::trim_start`. -/
def trimStart (s : Chars) : Chars := s.dropWhile isWhitespace

/-- `str::trim_matches` with a character. -/
def trimMatches (c : Char) (s : Chars) : Chars := strip (· == c) s

/-- `str::starts_with` with a character. -/
def startsWith (c : Char) (s : Chars) : Bool := s.head? = some c

/-- The line without a carriage return at its end. -/
def stripCr (line : Chars) : Chars :=
  if line.getLast? = some '\r' then line.dropLast else line

/-- `str::lines`: a line ends at a line feed, and a carriage return before it is dropped; there
is no last line without a character. -/
def lines (s : Chars) : List Chars :=
  let pieces := s.splitOn '\n'
  pieces.dropLast.map stripCr ++ (pieces.getLast?.filter (· ≠ [])).toList

/-- `str::split_once` with a character. -/
def splitOnce (c : Char) (s : Chars) : Option (Chars × Chars) :=
  match s.dropWhile (· ≠ c) with
  | [] => none
  | _ :: behind => some (s.takeWhile (· ≠ c), behind)

/-- `str::rsplit_once` with a character. -/
def rsplitOnce (c : Char) (s : Chars) : Option (Chars × Chars) :=
  (splitOnce c s.reverse).map fun (behind, before) => (before.reverse, behind.reverse)

/-- `str::split_whitespace`. -/
def splitWhitespace (s : Chars) : List Chars := (s.splitOnP isWhitespace).filter (· ≠ [])

/-! ## Sites -/

/-- `SiteConfig`; the numbers of a rate limit are of type `F`. -/
structure Site (F : Type) where
  listenAddr : Chars
  host : Option Chars
  root : Option Chars
  fileServer : Bool
  gzip : Bool
  log : Bool
  reverseProxy : Option Chars
  /-- `user:password` and the realm. -/
  basicAuth : Option (Chars × Chars)
  /-- Rate and burst. -/
  rateLimit : Option (F × F)
  deriving DecidableEq

variable {F : Type}

/-- Host and port of an address. -/
def parseAddress (addr : Chars) : Option Chars × Chars :=
  match rsplitOnce ':' addr with
  | some (h, p) => (if h = [] then none else some h, p)
  | none => (some addr, "80".toList)

/-- A site without directives. -/
def Site.new (addr : Chars) : Site F where
  listenAddr := "0.0.0.0:".toList ++ (parseAddress addr).2
  host := (parseAddress addr).1
  root := none
  fileServer := false
  gzip := false
  log := false
  reverseProxy := none
  basicAuth := none
  rateLimit := none

/-- The rate and the burst of `rate_limit`. -/
def parseRateLimit (parseF64 : Chars → Option F) : List Chars → Exec (F × F)
  | rate :: burst :: _ =>
    match parseF64 rate, parseF64 burst with
    | some r, some b => .returns (r, b)
    | _, _ => .panics
  | _ => .panics

/-- The directives. -/
inductive Directive where
  | root
  | fileServer
  | gzip
  | log
  | reverseProxy
  | rateLimit
  | basicAuth
  deriving DecidableEq

/-- The directive of a name. -/
def Directive.ofName (name : Chars) : Option Directive :=
  if name = "root".toList then some .root
  else if name = "file_server".toList then some .fileServer
  else if name = "gzip".toList then some .gzip
  else if name = "log".toList then some .log
  else if name = "reverse_proxy".toList then some .reverseProxy
  else if name = "rate_limit".toList then some .rateLimit
  else if name = "basic_auth".toList then some .basicAuth
  else none

/-- What a directive with its arguments does to a site; an unknown one is passed over. -/
def applyDirective (parseF64 : Chars → Option F) (site : Site F) : List Chars → Exec (Site F)
  | [] => .returns site
  | name :: args =>
    match Directive.ofName name with
    -- `root` implies `file_server`
    | some .root => .returns { site with root := args.head?, fileServer := true }
    | some .fileServer => .returns { site with fileServer := true }
    | some .gzip => .returns { site with gzip := true }
    | some .log => .returns { site with log := true }
    | some .reverseProxy => .returns { site with reverseProxy := args.head? }
    | some .rateLimit => do
      let limit ← parseRateLimit parseF64 args
      .returns { site with rateLimit := some limit }
    | some .basicAuth =>
      match args with
      | u :: p :: r :: _ =>
        .returns { site with basicAuth := some (u ++ ':' :: p, trimMatches '"' r) }
      | _ => .returns site
    | none => .returns site

/-- One line of the body of a block. -/
def applyLine (parseF64 : Chars → Option F) (site : Site F) (line : Chars) : Exec (Site F) :=
  let line := trim line
  if line = [] ∨ startsWith '#' line = true then .returns site
  else applyDirective parseF64 site (splitWhitespace line)

/-- The address that stands before a body: the last line that is not a comment. -/
def addressOf (addrPart : Chars) : Chars :=
  trim (((lines (trim addrPart)).filter fun l => !startsWith '#' (trimStart l)).getLast?.getD [])

/-- The site of a block, if it has one. -/
def parseBlock (parseF64 : Chars → Option F) (block : Chars) : Exec (Option (Site F)) :=
  let block := trim block
  if block = [] then .returns none
  else
    match splitOnce '{' block with
    | none => .returns none
    | some (addrPart, body) =>
      let addr := addressOf addrPart
      if addr = [] then .returns none
      else do
        let site ← (lines (trim body)).foldlM (applyLine parseF64) (Site.new addr)
        .returns (some site)

/-- One round of the loop over the blocks. -/
def addBlock (parseF64 : Chars → Option F) (sites : List (Site F)) (block : Chars) :
    Exec (List (Site F)) := do
  let site ← parseBlock parseF64 block
  .returns (sites ++ site.toList)

/-- `from_caddyfile`, on the content of the file. -/
def fromCaddyfile (parseF64 : Chars → Option F) (content : Chars) : Exec (List (Site F)) :=
  (content.splitOn '}').foldlM (addBlock parseF64) []

/-! ## The functions on texts -/

theorem isWhitespace_newline : isWhitespace '\n' = true := by decide

theorem splitOnce_of_not_mem {c : Char} {s : Chars} (h : c ∉ s) : splitOnce c s = none := by
  have hdrop : s.dropWhile (· ≠ c) = [] :=
    List.dropWhile_eq_nil_iff.mpr fun a ha => decide_eq_true fun e => h (e ▸ ha)
  rw [splitOnce, hdrop]

theorem splitOnce_append_cons {c : Char} {s : Chars} (h : c ∉ s) (t : Chars) :
    splitOnce c (s ++ c :: t) = some (s, t) := by
  have hne : ∀ a ∈ s, decide (a ≠ c) = true := fun a ha => decide_eq_true fun e => h (e ▸ ha)
  rw [splitOnce, List.dropWhile_append_of_pos hne, List.dropWhile_cons_of_neg (by simp),
    takeWhile_ne_append_cons h]

theorem trim_stripCr (line : Chars) : trim (stripCr line) = trim line := by
  rw [stripCr]
  split
  · next h =>
    have hline := List.dropLast_append_getLast? _ h
    conv_rhs => rw [← hline]
    exact (strip_concat (by decide) _).symm
  · rfl

/-- The trimmed lines: the pieces between line feeds, without a last one that is empty. -/
theorem map_trim_lines {s last : Chars} {init : List Chars} (h : s.splitOn '\n' = init ++ [last]) :
    (lines s).map trim = init.map trim ++ if last = [] then [] else [trim last] := by
  have hinit : (init.map stripCr).map trim = init.map trim := by
    rw [List.map_map]
    exact List.map_congr_left fun l _ => trim_stripCr l
  simp only [lines, h, List.dropLast_concat, List.getLast?_concat, List.map_append, hinit]
  by_cases hlast : last = []
  · simp [hlast]
  · simp [hlast, Option.filter]

/-- What disregards an empty line at the end may be read off the stripped lines. -/
theorem map_trim_lines_of_last {β : Type} {f : List Chars → β} (hlast : ∀ L, f (L ++ [[]]) = f L)
    (s : Chars) : f ((lines s).map trim) = f (strippedLines isWhitespace '\n' s) := by
  obtain ⟨init, last, h⟩ :=
    (List.eq_nil_or_concat' _).resolve_left (List.splitOn_ne_nil '\n' s)
  have hlines : strippedLines isWhitespace '\n' s = init.map trim ++ [trim last] := by
    rw [strippedLines, h, List.map_append]
    rfl
  rw [map_trim_lines h, hlines]
  split
  · next hl =>
    rw [hl, List.append_nil]
    exact (hlast _).symm
  · rfl

/-- A text that does not end in a line feed has the same lines either way. -/
theorem map_trim_lines_of_ne {s last : Chars} {init : List Chars}
    (h : strippedLines isWhitespace '\n' s = init ++ [last]) (hlast : last ≠ []) :
    (lines s).map trim = strippedLines isWhitespace '\n' s := by
  obtain ⟨pieces, piece, hs⟩ :=
    (List.eq_nil_or_concat' _).resolve_left (List.splitOn_ne_nil '\n' s)
  have hlines : strippedLines isWhitespace '\n' s = pieces.map trim ++ [trim piece] := by
    rw [strippedLines, hs, List.map_append]
    rfl
  rw [map_trim_lines hs, hlines, if_neg]
  rintro rfl
  rw [hlines] at h
  have := List.append_inj_right' h rfl
  exact hlast (List.singleton_inj.mp this).symm

/-- Whether a line is a comment does not depend on the blanks around it. -/
theorem startsWith_trimStart (c : Char) (l : Chars) :
    startsWith c (trimStart l) = startsWith c (trim l) := by
  rw [startsWith, startsWith, trim, head?_strip, trimStart]

/-! ## Addresses -/

/-- The last of some lines that is not a comment. -/
def lastLine (L : List Chars) : Chars := ((L.filter fun l => !startsWith '#' l).getLast?).getD []

theorem lastLine_append_comments {L M : List Chars} (h : ∀ l ∈ M, startsWith '#' l = true) :
    lastLine (L ++ M) = lastLine L := by
  have hnil : (M.filter fun l => !startsWith '#' l) = [] :=
    List.filter_eq_nil_iff.mpr fun l hl => by simp [h l hl]
  rw [lastLine, List.filter_append, hnil, List.append_nil, lastLine]

theorem lastLine_concat_nil (L : List Chars) : lastLine (L ++ [[]]) = [] := by
  have hconcat : ((L ++ [[]]).filter fun l => !startsWith '#' l) =
      (L.filter fun l => !startsWith '#' l) ++ [[]] := List.filter_append ..
  rw [lastLine, hconcat, List.getLast?_concat]
  rfl

/-- The address that a text leaves behind: blank lines at its end do not count. -/
def lastText (L : List Chars) : Chars := lastLine (L.rdropWhile (· = []))

theorem lastText_concat_nil (L : List Chars) : lastText (L ++ [[]]) = lastText L := by
  rw [lastText, List.rdropWhile_concat_pos _ _ _ (by simp), lastText]

theorem lastLine_nil_cons (L : List Chars) : lastLine ([] :: L) = lastLine L := by
  have hcons : (([] :: L).filter fun l => !startsWith '#' l) =
      [] :: L.filter fun l => !startsWith '#' l := List.filter_cons_of_pos rfl
  rw [lastLine, hcons, List.getLast?_cons, lastLine]
  cases (L.filter fun l => !startsWith '#' l).getLast? <;> rfl

theorem lastText_nil_cons (L : List Chars) : lastText ([] :: L) = lastText L := by
  induction L using List.reverseRecOn with
  | nil => rfl
  | append_singleton L line ih =>
    by_cases hline : line = []
    · subst hline
      rw [← List.cons_append, lastText_concat_nil, lastText_concat_nil, ih]
    · have hrdrop : ∀ M, (M ++ [line]).rdropWhile (· = []) = M ++ [line] :=
        fun M => List.rdropWhile_concat_neg _ _ _ (by simpa using hline)
      rw [lastText, lastText, ← List.cons_append, hrdrop, hrdrop, List.cons_append,
        lastLine_nil_cons]

theorem addressOf_eq_lastLine (s : Chars) : addressOf s = lastLine ((lines (trim s)).map trim) := by
  rw [addressOf, lastLine, List.filter_map, List.getLast?_map]
  simp only [startsWith_trimStart, Function.comp_def]
  cases ((lines (trim s)).filter fun l => !startsWith '#' (trim l)).getLast? <;> rfl

/-- The address before a body, by the stripped lines of the text before it. -/
theorem addressOf_eq (s : Chars) : addressOf s = lastText (strippedLines isWhitespace '\n' s) := by
  rw [← strippedLines_strip lastText_nil_cons lastText_concat_nil, addressOf_eq_lastLine, ← trim]
  by_cases hs : trim s = []
  · rw [hs]
    rfl
  · obtain ⟨init, last, hlines, hlast⟩ := strippedLines_of_strip_ne_nil isWhitespace_newline hs
    rw [← trim] at hlines
    rw [map_trim_lines_of_ne hlines hlast, hlines, lastText,
      List.rdropWhile_concat_neg _ _ _ (by simpa using hlast)]

/-! ## What stands in a block -/

/-- A line that holds a directive. -/
def isDirective (line : Chars) : Bool := line ≠ [] && !startsWith '#' line

/-- The directives of a body, each with its arguments. -/
def directives (body : Chars) : List (List Chars) :=
  ((strippedLines isWhitespace '\n' body).filter isDirective).map splitWhitespace

/-- The address and the directives of a block, unless it has none. -/
def reading (block : Chars) : Option (Chars × List (List Chars)) :=
  match splitOnce '{' block with
  | none => none
  | some (addrPart, body) =>
    if addressOf addrPart = [] then none else some (addressOf addrPart, directives body)

/-- The site of an address with directives. -/
def siteOf (parseF64 : Chars → Option F) (r : Chars × List (List Chars)) : Exec (Site F) :=
  r.2.foldlM (applyDirective parseF64) (Site.new r.1)

theorem filter_isDirective_nil_cons (L : List Chars) :
    ([] :: L).filter isDirective = L.filter isDirective := rfl

theorem filter_isDirective_concat_nil (L : List Chars) :
    (L ++ [[]]).filter isDirective = L.filter isDirective := by
  rw [List.filter_append]
  exact List.append_nil _

theorem directives_rdropWhile (body : Chars) :
    directives (body.rdropWhile isWhitespace) = directives body := by
  rw [directives, strippedLines_rdropWhile filter_isDirective_concat_nil, directives]

theorem addressOf_dropWhile (s : Chars) : addressOf (s.dropWhile isWhitespace) = addressOf s := by
  rw [addressOf_eq, strippedLines_dropWhile lastText_nil_cons, addressOf_eq]

/-- Only the lines with directives count. -/
theorem foldlM_applyLine (parseF64 : Chars → Option F) (ls : List Chars) (site : Site F) :
    ls.foldlM (applyLine parseF64) site =
      (((ls.map trim).filter isDirective).map splitWhitespace).foldlM (applyDirective parseF64)
        site := by
  induction ls generalizing site with
  | nil => rfl
  | cons l ls ih =>
    rw [List.foldlM_cons, List.map_cons]
    by_cases hl : trim l = [] ∨ startsWith '#' (trim l) = true
    · have hskip : ¬ isDirective (trim l) = true := by
        rcases hl with hl | hl <;> simp [isDirective, hl]
      rw [applyLine, if_pos hl, List.filter_cons_of_neg hskip]
      exact ih site
    · have hkeep : isDirective (trim l) = true := by
        rw [not_or] at hl
        simp [isDirective, hl.1, hl.2]
      rw [applyLine, if_neg hl, List.filter_cons_of_pos hkeep, List.map_cons, List.foldlM_cons]
      exact bind_congr fun site => ih site

theorem reading_of_not_mem {block : Chars} (h : '{' ∉ block) : reading block = none := by
  rw [reading, splitOnce_of_not_mem h]

theorem reading_append_cons {addrPart : Chars} (h : '{' ∉ addrPart) (body : Chars) :
    reading (addrPart ++ '{' :: body) =
      if addressOf addrPart = [] then none else some (addressOf addrPart, directives body) := by
  rw [reading, splitOnce_append_cons h]

/-- **A block is parsed by what stands in it**: its address and its directives. -/
theorem parseBlock_eq (parseF64 : Chars → Option F) (block : Chars) :
    parseBlock parseF64 block =
      match reading block with
      | none => .returns none
      | some r => some <$> siteOf parseF64 r := by
  by_cases hbrace : '{' ∈ block
  · obtain ⟨addrPart, body, rfl, hnot⟩ := List.eq_append_cons_of_mem hbrace
    have htrim : trim (addrPart ++ '{' :: body) =
        addrPart.dropWhile isWhitespace ++ '{' :: body.rdropWhile isWhitespace :=
      strip_append_cons (by decide) addrPart body
    have hnot' : '{' ∉ addrPart.dropWhile isWhitespace :=
      fun h => hnot ((List.dropWhile_sublist _).mem h)
    rw [parseBlock, reading_append_cons hnot]
    simp only [htrim, splitOnce_append_cons hnot', addressOf_dropWhile]
    rw [if_neg (by simp)]
    split
    · rfl
    · have hbody : directives body =
          (((lines (trim (body.rdropWhile isWhitespace))).map trim).filter isDirective).map
            splitWhitespace := by
        rw [map_trim_lines_of_last filter_isDirective_concat_nil, trim,
          strippedLines_strip filter_isDirective_nil_cons filter_isDirective_concat_nil,
          ← directives, directives_rdropWhile]
      rw [foldlM_applyLine, ← hbody]
      rfl
  · have hsub : ∀ c ∈ trim block, c ∈ block := fun c hc =>
      (List.dropWhile_sublist _).mem ((List.rdropWhile_prefix isWhitespace _).mem hc)
    rw [parseBlock, reading_of_not_mem hbrace]
    simp only [splitOnce_of_not_mem (mt (hsub _) hbrace)]
    split <;> rfl

/-! ## What the directives of a site set -/

/-- The arguments of the occurrences of a directive. -/
def argsOf (directive : Directive) (ds : List (List Chars)) : List (List Chars) :=
  ds.filterMap fun d =>
    if d.head?.bind Directive.ofName = some directive then some d.tail else none

/-- Rate and burst, if both are numbers. -/
def rateAndBurst (parseF64 : Chars → Option F) : List Chars → Option (F × F)
  | rate :: burst :: _ => (parseF64 rate).bind fun r => (parseF64 burst).map fun b => (r, b)
  | _ => none

/-- User, password and realm, if all are there. -/
def credentials : List Chars → Option (Chars × Chars)
  | u :: p :: r :: _ => some (u ++ ':' :: p, trimMatches '"' r)
  | _ => none

/-- The site that an address and directives describe: of each directive the last one counts. -/
def described (parseF64 : Chars → Option F) (addr : Chars) (ds : List (List Chars)) : Site F :=
  { (Site.new addr : Site F) with
    root := (argsOf .root ds).getLast?.bind List.head?
    fileServer := argsOf .root ds ≠ [] || argsOf .fileServer ds ≠ []
    gzip := argsOf .gzip ds ≠ []
    log := argsOf .log ds ≠ []
    reverseProxy := (argsOf .reverseProxy ds).getLast?.bind List.head?
    basicAuth := ((argsOf .basicAuth ds).filterMap credentials).getLast?
    rateLimit := (argsOf .rateLimit ds).getLast?.bind (rateAndBurst parseF64) }

/-- Every `rate_limit` has its two numbers. -/
def RatesGiven (parseF64 : Chars → Option F) (ds : List (List Chars)) : Prop :=
  ∀ args ∈ argsOf .rateLimit ds, (rateAndBurst parseF64 args).isSome = true

instance (parseF64 : Chars → Option F) : DecidablePred (RatesGiven parseF64) :=
  fun ds => inferInstanceAs (Decidable (∀ args ∈ argsOf .rateLimit ds, _ = true))

theorem argsOf_append (directive : Directive) (ds es : List (List Chars)) :
    argsOf directive (ds ++ es) = argsOf directive ds ++ argsOf directive es :=
  List.filterMap_append

theorem argsOf_singleton (directive : Directive) (name : Chars) (args : List Chars) :
    argsOf directive [name :: args] =
      if Directive.ofName name = some directive then [args] else [] := by
  rw [argsOf, List.filterMap_cons, List.filterMap_nil, List.head?_cons, List.tail_cons,
    Option.bind_some]
  split <;> simp_all

theorem parseRateLimit_eq (parseF64 : Chars → Option F) (args : List Chars) :
    parseRateLimit parseF64 args =
      match rateAndBurst parseF64 args with
      | some limit => .returns limit
      | none => .panics := by
  match args with
  | [] => rfl
  | [rate] => rfl
  | rate :: burst :: rest =>
    rw [parseRateLimit, rateAndBurst]
    cases parseF64 rate <;> cases parseF64 burst <;> rfl

/-- One more directive. -/
theorem applyDirective_described (parseF64 : Chars → Option F) (addr : Chars)
    (ds : List (List Chars)) (d : List Chars) :
    applyDirective parseF64 (described parseF64 addr ds) d =
      if RatesGiven parseF64 [d] then .returns (described parseF64 addr (ds ++ [d]))
      else .panics := by
  cases d with
  | nil =>
    have hnil : ∀ directive, argsOf directive (ds ++ [[]]) = argsOf directive ds :=
      fun directive => (argsOf_append directive ds [[]]).trans (List.append_nil _)
    have hgiven : RatesGiven parseF64 [[]] := fun args h => by simp [argsOf] at h
    rw [if_pos hgiven]
    simp only [applyDirective, described, hnil]
  | cons name args =>
    simp only [applyDirective, described, RatesGiven, argsOf_append, argsOf_singleton,
      parseRateLimit_eq]
    cases Directive.ofName name with
    | none => simp
    | some directive =>
      cases directive with
      | rateLimit => cases h : rateAndBurst parseF64 args <;> simp [h]
      | basicAuth =>
        rcases args with - | ⟨u, - | ⟨p, - | ⟨r, rest⟩⟩⟩ <;> simp [credentials]
      | _ => simp

/-- **A site is what its directives describe**, and a rate limit without its numbers is the
only panic. -/
theorem siteOf_eq (parseF64 : Chars → Option F) (addr : Chars) (ds : List (List Chars)) :
    siteOf parseF64 (addr, ds) =
      if RatesGiven parseF64 ds then .returns (described parseF64 addr ds) else .panics := by
  induction ds using List.reverseRecOn with
  | nil => rfl
  | append_singleton ds d ih =>
    have hgiven : RatesGiven parseF64 (ds ++ [d]) ↔
        RatesGiven parseF64 ds ∧ RatesGiven parseF64 [d] := by
      rw [RatesGiven, argsOf_append, List.forall_mem_append, ← RatesGiven, ← RatesGiven]
    rw [siteOf] at ih ⊢
    rw [List.foldlM_append, ih]
    by_cases hds : RatesGiven parseF64 ds
    · rw [if_pos hds, Exec.returns_bind, List.foldlM_cons, applyDirective_described]
      by_cases hd : RatesGiven parseF64 [d]
      · rw [if_pos hd, if_pos (hgiven.mpr ⟨hds, hd⟩)]
        rfl
      · rw [if_neg hd, if_neg fun h => hd (hgiven.mp h).2]
        rfl
    · rw [if_neg hds, if_neg fun h => hds (hgiven.mp h).1]
      rfl

/-- What stands in the blocks of a file. -/
def readings (content : Chars) : List (Chars × List (List Chars)) :=
  (content.splitOn '}').filterMap reading

/-- What is put into a file changes what stands in the block that it is put into. -/
theorem readings_append (before behind : Chars) :
    ∃ init final, ∀ mid, readings (before ++ (mid ++ behind)) =
      init ++ (readings (before.rtakeWhile (· ≠ '}') ++ (mid ++ behind.takeWhile (· ≠ '}'))) ++
        final) := by
  obtain ⟨init, hinit⟩ := splitOn_append_right '}' before
  obtain ⟨final, hfinal⟩ := splitOn_append_left '}' behind
  refine ⟨init.filterMap reading, final.filterMap reading, fun mid => ?_⟩
  rw [readings, hinit, ← List.append_assoc _ mid, hfinal, List.filterMap_append,
    List.filterMap_append, readings, ← List.append_assoc _ mid]

theorem foldlM_addBlock (parseF64 : Chars → Option F) (blocks : List Chars)
    (sites : List (Site F)) :
    blocks.foldlM (addBlock parseF64) sites =
      if ∀ r ∈ blocks.filterMap reading, RatesGiven parseF64 r.2 then
        .returns (sites ++ (blocks.filterMap reading).map fun r => described parseF64 r.1 r.2)
      else .panics := by
  induction blocks generalizing sites with
  | nil => simp
  | cons block blocks ih =>
    rw [List.foldlM_cons, addBlock, parseBlock_eq]
    cases hr : reading block with
    | none =>
      rw [List.filterMap_cons_none hr]
      have hsites : sites ++ (none : Option (Site F)).toList = sites := List.append_nil sites
      rw [Exec.returns_bind, Exec.returns_bind, hsites, ih]
    | some r =>
      rw [List.filterMap_cons_some hr]
      dsimp only
      rw [siteOf_eq]
      by_cases hgiven : RatesGiven parseF64 r.2
      · rw [if_pos hgiven]
        refine (ih (sites ++ [described parseF64 r.1 r.2])).trans ?_
        simp only [List.forall_mem_cons, hgiven, true_and, List.map_cons, List.append_assoc,
          List.singleton_append]
      · rw [if_neg hgiven, if_neg fun h => hgiven (h r List.mem_cons_self)]
        rfl

/-- **The file is accepted with the sites that its blocks describe**, unless a rate limit lacks
its numbers. -/
theorem fromCaddyfile_eq (parseF64 : Chars → Option F) (content : Chars) :
    fromCaddyfile parseF64 content =
      if ∀ r ∈ readings content, RatesGiven parseF64 r.2 then
        .returns ((readings content).map fun r => described parseF64 r.1 r.2)
      else .panics := by
  rw [fromCaddyfile, foldlM_addBlock, List.nil_append, readings]

theorem fromCaddyfile_eq_returns_iff {parseF64 : Chars → Option F} {content : Chars}
    {sites : List (Site F)} :
    fromCaddyfile parseF64 content = .returns sites ↔
      (∀ r ∈ readings content, RatesGiven parseF64 r.2) ∧
        (readings content).map (fun r => described parseF64 r.1 r.2) = sites := by
  rw [fromCaddyfile_eq]
  split
  · next h => rw [Exec.returns.injEq, and_iff_right h]
  · next h => exact ⟨(by intro h'; cases h'), fun h' => absurd h'.1 h⟩

/-- No text is read as a number. -/
def noNumber : Chars → Option Unit := fun _ => none

/-- The last of two roots counts, and comments do not. -/
example :
    fromCaddyfile noNumber ":80 \x7b\n  root a\n  # log\n  root b\n\x7d\n# end".toList =
      .returns [{ (Site.new ":80".toList : Site Unit) with
        root := some ['b'], fileServer := true }] := by decide +kernel

end PpcaNetwork.Minicaddy.Caddyfile
