import PpcaNetwork.Lib.Text

/-!
# The tokens of an HTML page

The tokenizer of the HTML standard, a byte at a time: what it reads is UTF-8, and all that it
looks at is ASCII.  Character references are not decoded here, and what a comment says is
not kept.

* `Token`, `State` — what is emitted, and where the tokenizer is; `State.step` and
  `State.finish` — the next byte, and the end of the page.
* `tokenize` — the tokens of a page.
* `InMarkup.first` — a tag or a comment that has begun gives a token that is no character.
* `tokensFrom_data_iff` — text stays text exactly when nothing in it begins a tag or a comment.
* `tokensFrom_raw` — the same inside `title`.

The escapes of script data and the sections of foreign content are left out.
-/

namespace PpcaNetwork.Html

/-! ## Bytes -/

/-- An ASCII letter. -/
def isLetter (b : UInt8) : Bool := (0x41 ≤ b && b ≤ 0x5A) || (0x61 ≤ b && b ≤ 0x7A)

/-- Tab, line feed, form feed and space; a carriage return does not reach the tokenizer. -/
def isSpace (b : UInt8) : Bool := b = 0x09 || b = 0x0A || b = 0x0C || b = 0x20

/-- U+FFFD. -/
def replacement : Text := [0xEF, 0xBF, 0xBD]

/-- A byte of the name of a tag or an attribute. -/
def nameByte (b : UInt8) : Text := if b = 0 then replacement else [asciiLower b]

/-- Line ends become line feeds. -/
def normalizeNewlines : Text → Text
  | 0x0D :: 0x0A :: s => 0x0A :: normalizeNewlines s
  | b :: s => (if b = 0x0D then 0x0A else b) :: normalizeNewlines s
  | [] => []

/-! ## The tokenizer -/

/-- What a page is cut into. -/
inductive Token where
  /-- A byte of text. -/
  | char (b : UInt8)
  | startTag (name : Text) (attributes : List (Text × Text))
  | endTag (name : Text)
  | comment
  | doctype
  /-- A tag that the page ends in, or an end tag without a name: nothing comes of it. -/
  | passedOver
  deriving DecidableEq, Repr

/-- Text, as it is emitted. -/
def chars (s : Text) : List Token := s.map Token.char

/-- A tag that is being read. -/
structure Tag where
  isEnd : Bool
  name : Text
  attributes : List (Text × Text)

/-- Where in a tag the tokenizer is.  Behind a slash and behind a quoted value it goes on as it
does between attributes. -/
inductive TagAt where
  | name
  | between
  | attributeName (name : Text)
  | afterName (name : Text)
  | beforeValue (name : Text)
  /-- In a value, with the quote that ends it if there is one. -/
  | value (quote : Option UInt8) (name value : Text)

namespace Tag

/-- An attribute is complete; of two with one name the first counts. -/
def commit (tag : Tag) (name value : Text) : Tag :=
  if (tag.attributes.map Prod.fst).contains name then tag
  else { tag with attributes := tag.attributes ++ [(name, value)] }

/-- The next byte of a tag; nothing when the tag is complete. -/
def between (tag : Tag) (b : UInt8) : Tag × Option TagAt :=
  if isSpace b ∨ b = 0x2F then (tag, some .between)
  else if b = 0x3E then (tag, none)
  else (tag, some (.attributeName (nameByte b)))

/-- A byte behind the name of an attribute. -/
def afterName (tag : Tag) (name : Text) (b : UInt8) : Tag × Option TagAt :=
  if isSpace b then (tag, some (.afterName name))
  else if b = 0x2F then (tag.commit name [], some .between)
  else if b = 0x3D then (tag, some (.beforeValue name))
  else if b = 0x3E then (tag.commit name [], none)
  else (tag.commit name [], some (.attributeName (nameByte b)))

/-- One byte of a tag; no place is left behind its end. -/
def step (tag : Tag) (b : UInt8) : TagAt → Tag × Option TagAt
  | .name =>
    if isSpace b ∨ b = 0x2F then (tag, some .between)
    else if b = 0x3E then (tag, none)
    else ({ tag with name := tag.name ++ nameByte b }, some .name)
  | .between => tag.between b
  | .attributeName name =>
    if isSpace b ∨ b = 0x2F ∨ b = 0x3E then tag.afterName name b
    else if b = 0x3D then (tag, some (.beforeValue name))
    else (tag, some (.attributeName (name ++ nameByte b)))
  | .afterName name => tag.afterName name b
  | .beforeValue name =>
    if isSpace b then (tag, some (.beforeValue name))
    else if b = 0x22 ∨ b = 0x27 then (tag, some (.value (some b) name []))
    else if b = 0x3E then (tag.commit name [], none)
    else (tag, some (.value none name [b]))
  | .value (some quote) name value =>
    if b = quote then (tag.commit name value, some .between)
    else (tag, some (.value (some quote) name (value ++ [b])))
  | .value none name value =>
    if isSpace b then (tag.commit name value, some .between)
    else if b = 0x3E then (tag.commit name value, none)
    else (tag, some (.value none name (value ++ [b])))

/-- The token that the tag is. -/
def token (tag : Tag) : Token :=
  if tag.isEnd then .endTag tag.name else .startTag tag.name tag.attributes

end Tag

/-- Where in a comment the tokenizer is. -/
inductive CommentAt where
  | start
  | startDash
  | body
  | dash
  | dashes
  | bang

/-- The next byte of a comment; nothing when it ends. -/
def CommentAt.step (b : UInt8) : CommentAt → Option CommentAt
  | .start => if b = 0x2D then some .startDash else if b = 0x3E then none else some .body
  | .startDash => if b = 0x2D then some .dashes else if b = 0x3E then none else some .body
  | .body => if b = 0x2D then some .dash else some .body
  | .dash => if b = 0x2D then some .dashes else some .body
  | .dashes =>
    if b = 0x3E then none else if b = 0x21 then some .bang
    else if b = 0x2D then some .dashes else some .body
  | .bang => if b = 0x2D then some .dash else if b = 0x3E then none else some .body

/-- Where the tokenizer is. -/
inductive State where
  | data
  /-- Behind `<`. -/
  | tagOpen
  /-- Behind `</`. -/
  | endTagOpen
  /-- In an element whose content is text up to its end tag, with what may be that end tag. -/
  | raw (element pending : Text)
  | plaintext
  | tag (tag : Tag) (at_ : TagAt)
  /-- Behind `<!`. -/
  | declaration (seen : Text)
  | comment (at_ : CommentAt)
  | bogusComment
  | doctype

/-- The elements whose content is not looked at for tags. -/
def rawElements : List Text :=
  [utf8 "title", utf8 "textarea", utf8 "style", utf8 "xmp", utf8 "iframe", utf8 "noembed",
    utf8 "noframes", utf8 "script", utf8 "noscript"]

/-- Where the tokenizer goes on behind a tag. -/
def Tag.next (tag : Tag) : State :=
  if tag.isEnd then .data
  else if rawElements.contains tag.name then .raw tag.name []
  else if tag.name = utf8 "plaintext" then .plaintext
  else .data

namespace State

/-- The next byte of text. -/
def dataByte (b : UInt8) : List Token × State :=
  if b = 0x3C then ([], .tagOpen) else ([.char b], .data)

/-- The next byte of an element whose content is text. -/
def rawByte (element : Text) (b : UInt8) (pending : Text) : List Token × State :=
  if b = 0x3C then (chars pending, .raw element [b])
  else
    match pending with
    | [] => ([.char b], .raw element [])
    | [_] =>
      if b = 0x2F then ([], .raw element (pending ++ [b]))
      else (chars (pending ++ [b]), .raw element [])
    | _ :: _ :: name =>
      if isLetter b then ([], .raw element (pending ++ [b]))
      else if toAsciiLowercase name = element ∧ b = 0x3E then ([.endTag element], .data)
      else if toAsciiLowercase name = element ∧ (isSpace b ∨ b = 0x2F) then
        ([], .tag ⟨true, element, []⟩ .between)
      else (chars (pending ++ [b]), .raw element [])

/-- What `<!` begins, which takes some bytes to be known. -/
def declarationByte (b : UInt8) (seen : Text) : List Token × State :=
  let seen := seen ++ [b]
  if seen = utf8 "--" then ([], .comment .start)
  else if toAsciiLowercase seen = utf8 "doctype" then ([], .doctype)
  else if seen <+: utf8 "--" ∨ toAsciiLowercase seen <+: utf8 "doctype" then
    ([], .declaration seen)
  else if b = 0x3E then ([.comment], .data)
  else ([], .bogusComment)

/-- The next byte: what is emitted, and where the tokenizer goes on. -/
def step (b : UInt8) : State → List Token × State
  | data => dataByte b
  | tagOpen =>
    if isLetter b then ([], .tag ⟨false, [asciiLower b], []⟩ .name)
    else if b = 0x2F then ([], .endTagOpen)
    else if b = 0x21 then ([], .declaration [])
    else if b = 0x3F then ([], .bogusComment)
    else (.char 0x3C :: (dataByte b).1, (dataByte b).2)
  | endTagOpen =>
    if isLetter b then ([], .tag ⟨true, [asciiLower b], []⟩ .name)
    else if b = 0x3E then ([.passedOver], .data)
    else ([], .bogusComment)
  | raw element pending => rawByte element b pending
  | plaintext => ([.char b], .plaintext)
  | tag t at_ =>
    match t.step b at_ with
    | (t, some at_) => ([], .tag t at_)
    | (t, none) => ([t.token], t.next)
  | declaration seen => declarationByte b seen
  | comment at_ =>
    match at_.step b with
    | some at_ => ([], .comment at_)
    | none => ([.comment], .data)
  | bogusComment => if b = 0x3E then ([.comment], .data) else ([], .bogusComment)
  | doctype => if b = 0x3E then ([.doctype], .data) else ([], .doctype)

/-- The end of the page. -/
def finish : State → List Token
  | data => []
  | tagOpen => chars [0x3C]
  | endTagOpen => chars [0x3C, 0x2F]
  | raw _ pending => chars pending
  | plaintext => []
  | tag _ _ => [.passedOver]
  | declaration _ => [.comment]
  | comment _ => [.comment]
  | bogusComment => [.comment]
  | doctype => [.doctype]

end State

/-- The tokens of the rest of a page. -/
def tokensFrom (s : State) : Text → List Token
  | [] => s.finish
  | b :: rest => (s.step b).1 ++ tokensFrom (s.step b).2 rest

/-- The tokens of a page. -/
def tokenize (page : Text) : List Token := tokensFrom .data (normalizeNewlines page)

/-! ## Text and markup -/

/-- The token is a byte of text. -/
def Token.isChar : Token → Bool
  | char _ => true
  | _ => false

@[simp] theorem chars_nil : chars [] = [] := rfl

@[simp] theorem chars_cons (b : UInt8) (s : Text) : chars (b :: s) = .char b :: chars s := rfl

@[simp] theorem chars_append (s t : Text) : chars (s ++ t) = chars s ++ chars t := List.map_append

/-- Text ends where the first token that is no character stands. -/
theorem chars_append_cons_inj {s t : Text} {a b : Token} {rest rest' : List Token}
    (ha : a.isChar = false) (hb : b.isChar = false)
    (h : chars s ++ a :: rest = chars t ++ b :: rest') : s = t ∧ a = b ∧ rest = rest' := by
  induction s generalizing t with
  | nil =>
    cases t with
    | nil => exact ⟨rfl, List.cons.inj h⟩
    | cons c t =>
      obtain ⟨rfl, -⟩ := List.cons.inj h
      cases ha
  | cons c s ih =>
    cases t with
    | nil =>
      obtain ⟨rfl, -⟩ := List.cons.inj h
      cases hb
    | cons d t =>
      obtain ⟨hhead, htail⟩ := List.cons.inj h
      obtain ⟨rfl, hrest⟩ := ih htail
      cases hhead
      exact ⟨rfl, hrest⟩

/-- In a tag, a comment or a declaration. -/
def State.InMarkup : State → Prop
  | .tag .. | .declaration _ | .comment _ | .bogusComment | .doctype => True
  | _ => False

theorem declarationByte_cases (b : UInt8) (seen : Text) :
    ((State.declarationByte b seen).1 = [] ∧ (State.declarationByte b seen).2.InMarkup) ∨
      State.declarationByte b seen = ([.comment], .data) := by
  unfold State.declarationByte
  dsimp only
  split_ifs
  · exact .inl ⟨rfl, trivial⟩
  · exact .inl ⟨rfl, trivial⟩
  · exact .inl ⟨rfl, trivial⟩
  · exact .inr rfl
  · exact .inl ⟨rfl, trivial⟩

theorem Tag.isChar_token (tag : Tag) : tag.token.isChar = false := by
  unfold token
  split <;> rfl

/-- Markup goes on, or gives its token. -/
theorem State.InMarkup.step {s : State} (h : s.InMarkup) (b : UInt8) :
    ((s.step b).1 = [] ∧ (s.step b).2.InMarkup) ∨
      ∃ tok, (s.step b).1 = [tok] ∧ tok.isChar = false := by
  cases s with
  | data | tagOpen | endTagOpen | raw element pending | plaintext => exact h.elim
  | tag t at_ =>
    simp only [State.step]
    rcases t.step b at_ with ⟨t', next⟩
    cases next with
    | none => exact .inr ⟨t'.token, rfl, t'.isChar_token⟩
    | some at' => exact .inl ⟨rfl, trivial⟩
  | declaration seen =>
    rcases declarationByte_cases b seen with hon | hdone
    · exact .inl hon
    · exact .inr ⟨.comment, congrArg Prod.fst hdone, rfl⟩
  | comment at_ =>
    simp only [State.step]
    cases at_.step b with
    | none => exact .inr ⟨.comment, rfl, rfl⟩
    | some at' => exact .inl ⟨rfl, trivial⟩
  | bogusComment =>
    simp only [State.step]
    split
    · exact .inr ⟨.comment, rfl, rfl⟩
    · exact .inl ⟨rfl, trivial⟩
  | doctype =>
    simp only [State.step]
    split
    · exact .inr ⟨.doctype, rfl, rfl⟩
    · exact .inl ⟨rfl, trivial⟩

/-- The next token is no character. -/
def StartsWithMarkup (tokens : List Token) : Prop :=
  ∃ tok rest, tokens = tok :: rest ∧ tok.isChar = false

/-- What has begun as markup gives a token that is none of text. -/
theorem State.InMarkup.first {s : State} (h : s.InMarkup) (page : Text) :
    StartsWithMarkup (tokensFrom s page) := by
  induction page generalizing s with
  | nil =>
    cases s with
    | data | tagOpen | endTagOpen | raw element pending | plaintext => exact h.elim
    | tag t at_ => exact ⟨.passedOver, [], rfl, rfl⟩
    | declaration seen => exact ⟨.comment, [], rfl, rfl⟩
    | comment at_ => exact ⟨.comment, [], rfl, rfl⟩
    | bogusComment => exact ⟨.comment, [], rfl, rfl⟩
    | doctype => exact ⟨.doctype, [], rfl, rfl⟩
  | cons b page ih =>
    rcases h.step b with ⟨hnothing, hnext⟩ | ⟨tok, hemit, htok⟩
    · rw [tokensFrom, hnothing]
      exact ih hnext
    · rw [tokensFrom, hemit]
      exact ⟨tok, _, rfl, htok⟩

/-- What has begun as markup is not text. -/
theorem StartsWithMarkup.ne_char {tokens : List Token} (h : StartsWithMarkup tokens) (b : UInt8)
    (rest : List Token) : tokens ≠ .char b :: rest := by
  obtain ⟨tok, rest', rfl, htok⟩ := h
  rintro ⟨⟩
  cases htok

/-- The bytes that make something else than text of a `<` before them. -/
def opensMarkup (b : UInt8) : Bool := isLetter b || b = 0x2F || b = 0x21 || b = 0x3F

theorem startsWithMarkup_of_opens {b : UInt8} (h : opensMarkup b = true) {page : Text}
    (hne : page ≠ []) : StartsWithMarkup (tokensFrom .tagOpen (b :: page)) := by
  simp only [opensMarkup, Bool.or_eq_true, decide_eq_true_eq] at h
  rw [tokensFrom, State.step]
  split_ifs with hletter hslash hbang hquestion
  · exact State.InMarkup.first (s := .tag _ _) trivial page
  · obtain ⟨c, page, rfl⟩ := List.exists_cons_of_ne_nil hne
    rw [List.nil_append, tokensFrom, State.step]
    split_ifs
    · exact State.InMarkup.first (s := .tag _ _) trivial page
    · exact ⟨.passedOver, _, rfl, rfl⟩
    · exact State.InMarkup.first (s := .bogusComment) trivial page
  · exact State.InMarkup.first (s := .declaration []) trivial page
  · exact State.InMarkup.first (s := .bogusComment) trivial page
  · simp_all

/-- Nothing in the text begins a tag, a comment or a declaration. -/
def PlainText (s : Text) : Prop := s.IsChain fun a b => ¬ (a = 0x3C ∧ opensMarkup b = true)

instance (s : Text) : Decidable (PlainText s) := inferInstanceAs (Decidable (List.IsChain _ s))

theorem plainText_cons_of_ne {b : UInt8} (h : b ≠ 0x3C) (s : Text) :
    PlainText (b :: s) ↔ PlainText s := by
  cases s with
  | nil => simp [PlainText]
  | cons c s => simp [PlainText, List.isChain_cons_cons, h]

theorem tokensFrom_data_cons {b : UInt8} (h : b ≠ 0x3C) (page : Text) :
    tokensFrom .data (b :: page) = .char b :: tokensFrom .data page := by
  rw [tokensFrom, State.step, State.dataByte, if_neg h]
  rfl

theorem tokensFrom_tagOpen_cons {b : UInt8} (h : opensMarkup b = false) (page : Text) :
    tokensFrom .tagOpen (b :: page) = .char 0x3C :: tokensFrom .data (b :: page) := by
  simp only [opensMarkup, Bool.or_eq_false_iff, decide_eq_false_iff_not] at h
  obtain ⟨⟨⟨hletter, hslash⟩, hbang⟩, hquestion⟩ := h
  rw [tokensFrom, State.step, if_neg (by simp [hletter]), if_neg hslash, if_neg hbang,
    if_neg hquestion]
  rfl

/-- **Text stays text.**  Up to a `<` behind it, exactly when nothing in it begins markup. -/
theorem tokensFrom_data_iff (s rest : Text) (tokens : List Token) :
    tokensFrom .data (s ++ 0x3C :: rest) = chars s ++ tokens ↔
      PlainText s ∧ tokensFrom .data (0x3C :: rest) = tokens := by
  -- with what has to be known behind a `<`
  suffices h : (tokensFrom .data (s ++ 0x3C :: rest) = chars s ++ tokens ↔
      PlainText s ∧ tokensFrom .data (0x3C :: rest) = tokens) ∧
    (tokensFrom .tagOpen (s ++ 0x3C :: rest) = .char 0x3C :: chars s ++ tokens ↔
      PlainText (0x3C :: s) ∧ tokensFrom .data (0x3C :: rest) = tokens) from h.1
  induction s with
  | nil =>
    have hopen : tokensFrom .tagOpen (0x3C :: rest) =
        .char 0x3C :: tokensFrom .data (0x3C :: rest) :=
      tokensFrom_tagOpen_cons (by decide) rest
    refine ⟨by simp [PlainText], ?_⟩
    rw [List.nil_append, hopen]
    simp [PlainText]
  | cons b s ih =>
    obtain ⟨ihdata, ihopen⟩ := ih
    have hdata : tokensFrom .data (b :: s ++ 0x3C :: rest) = chars (b :: s) ++ tokens ↔
        PlainText (b :: s) ∧ tokensFrom .data (0x3C :: rest) = tokens := by
      by_cases hlt : b = 0x3C
      · subst hlt
        exact ihopen
      · rw [List.cons_append, tokensFrom_data_cons hlt, chars_cons, List.cons_append,
          List.cons.injEq, plainText_cons_of_ne hlt, ← ihdata]
        exact and_iff_right rfl
    refine ⟨hdata, ?_⟩
    by_cases hopens : opensMarkup b = true
    · have hmarkup : StartsWithMarkup (tokensFrom .tagOpen (b :: s ++ 0x3C :: rest)) :=
        startsWithMarkup_of_opens hopens (by simp)
      refine iff_of_false (hmarkup.ne_char _ _) fun h => ?_
      exact (List.isChain_cons_cons.mp h.1).1 ⟨rfl, hopens⟩
    · have hchain : PlainText (0x3C :: b :: s) ↔ PlainText (b :: s) := by
        simp [PlainText, List.isChain_cons_cons, hopens]
      rw [hchain, ← hdata, List.cons_append,
        tokensFrom_tagOpen_cons (Bool.eq_false_of_not_eq_true hopens), List.cons_append,
        List.cons.injEq]
      exact and_iff_right rfl

/-! ## The content of an element -/

/-- What becomes of the text of an element: all of it stays text up to the end tag, or a part of
it is taken for the end tag. -/
inductive RawOutcome (element : Text) (s : Text) (behind tokens : List Token) : Prop where
  | whole (h : tokens = chars s ++ .endTag element :: behind)
  | cut (before after : Text) (hs : s = before ++ 0x3C :: 0x2F :: after) (rest : List Token)
    (h : tokens = chars before ++ rest) (hrest : StartsWithMarkup rest)

section Raw

variable {element s : Text} {behind tokens : List Token}

theorem RawOutcome.prepend (p : Text) (h : RawOutcome element s behind tokens) :
    RawOutcome element (p ++ s) behind (chars p ++ tokens) := by
  cases h with
  | whole h => exact .whole (by simp [h])
  | cut before after hs rest h hrest =>
    exact .cut (p ++ before) after (by simp [hs]) rest (by simp [h]) hrest

/-- What may be the end tag so far. -/
def Pending (pending : Text) : Prop :=
  pending = [] ∨ pending = [0x3C] ∨ ∃ name, pending = 0x3C :: 0x2F :: name

/-- What the next byte makes of what may be the end tag: it is text, it may still be the end tag,
or it is taken for one. -/
theorem rawByte_cases (element : Text) {b : UInt8} (hb : b ≠ 0x3C) {pending : Text}
    (h : Pending pending) :
    State.rawByte element b pending = (chars (pending ++ [b]), .raw element []) ∨
      (State.rawByte element b pending = ([], .raw element (pending ++ [b])) ∧
        Pending (pending ++ [b])) ∨
      (∃ name, pending = 0x3C :: 0x2F :: name) ∧ ∀ page, StartsWithMarkup
        ((State.rawByte element b pending).1 ++
          tokensFrom (State.rawByte element b pending).2 page) := by
  rcases h with rfl | rfl | ⟨name, rfl⟩
  · exact .inl (by rw [State.rawByte, if_neg hb]; rfl)
  · by_cases hslash : b = 0x2F
    · subst hslash
      exact .inr (.inl ⟨rfl, .inr (.inr ⟨[], rfl⟩)⟩)
    · exact .inl (by simp only [State.rawByte, if_neg hb, if_neg hslash])
  · simp only [State.rawByte, if_neg hb]
    split_ifs with hletter hend hopen
    · exact .inr (.inl ⟨rfl, .inr (.inr ⟨name ++ [b], rfl⟩)⟩)
    · exact .inr (.inr ⟨⟨name, rfl⟩, fun page => ⟨.endTag element, _, rfl, rfl⟩⟩)
    · exact .inr (.inr ⟨⟨name, rfl⟩, fun page => State.InMarkup.first (s := .tag _ _) trivial page⟩)
    · exact .inl rfl

/-- The content of an element up to its end tag; `close` is that tag without its `<`. -/
theorem rawOutcome (close : Text) (rest : Text)
    (hclose : tokensFrom (.raw element [0x3C]) (close ++ rest) =
      .endTag element :: tokensFrom .data rest) (s : Text) :
    ∀ pending, Pending pending → RawOutcome element (pending ++ s) (tokensFrom .data rest)
      (tokensFrom (.raw element pending) (s ++ 0x3C :: (close ++ rest))) := by
  have hlt : ∀ (pending page : Text), tokensFrom (.raw element pending) (0x3C :: page) =
      chars pending ++ tokensFrom (.raw element [0x3C]) page := fun _ _ => rfl
  induction s with
  | nil =>
    intro pending _
    rw [List.nil_append, List.append_nil, hlt, hclose]
    exact .whole rfl
  | cons b s ih =>
    intro pending hpending
    by_cases hb : b = 0x3C
    · subst hb
      rw [List.cons_append, hlt]
      exact (ih [0x3C] (.inr (.inl rfl))).prepend pending
    · have hsplit : pending ++ b :: s = (pending ++ [b]) ++ s := by simp
      rw [List.cons_append, tokensFrom, State.step]
      rcases rawByte_cases element hb hpending with htext | ⟨hmore, hnext⟩ | ⟨⟨name, rfl⟩, hmarkup⟩
      · rw [hsplit, htext]
        exact (ih [] (.inl rfl)).prepend (pending ++ [b])
      · rw [hsplit, hmore]
        exact ih (pending ++ [b]) hnext
      · exact .cut [] (name ++ b :: s) rfl _ rfl (hmarkup _)

theorem not_plainText_of_close {before after : Text} :
    ¬ PlainText (before ++ 0x3C :: 0x2F :: after) := by
  intro h
  have htail : PlainText (0x3C :: 0x2F :: after) := h.right_of_append
  exact (List.isChain_cons_cons.mp htail).1 ⟨rfl, rfl⟩

/-- Text in which nothing begins markup stays text in an element, too. -/
theorem tokensFrom_raw {close rest : Text}
    (hclose : tokensFrom (.raw element [0x3C]) (close ++ rest) =
      .endTag element :: tokensFrom .data rest) (h : PlainText s) :
    tokensFrom (.raw element []) (s ++ 0x3C :: (close ++ rest)) =
      chars s ++ .endTag element :: tokensFrom .data rest := by
  cases rawOutcome close rest hclose s [] (.inl rfl) with
  | whole hwhole => exact hwhole
  | cut before after hs =>
    rw [List.nil_append] at hs
    rw [hs] at h
    exact absurd h not_plainText_of_close

/-- When all of it stays text, what follows is read as data. -/
theorem eq_of_tokensFrom_raw {close rest : Text}
    (hclose : tokensFrom (.raw element [0x3C]) (close ++ rest) =
      .endTag element :: tokensFrom .data rest)
    (h : tokensFrom (.raw element []) (s ++ 0x3C :: (close ++ rest)) =
      chars s ++ .endTag element :: behind) : tokensFrom .data rest = behind := by
  cases rawOutcome close rest hclose s [] (.inl rfl) with
  | whole hwhole =>
    rw [h, List.nil_append, List.append_cancel_left_eq, List.cons.injEq] at hwhole
    exact hwhole.2.symm
  | cut before after hs tail hcut htail =>
    rw [List.nil_append] at hs
    rw [h, hs, chars_append, List.append_assoc, List.append_cancel_left_eq] at hcut
    exact absurd hcut.symm (htail.ne_char _ _)

end Raw

/-! ## Attribute values -/

/-- A quoted value ends with its quote. -/
theorem tokensFrom_value {quote : UInt8} {s : Text} (h : quote ∉ s) (tag : Tag)
    (name value rest : Text) :
    tokensFrom (.tag tag (.value (some quote) name value)) (s ++ quote :: rest) =
      tokensFrom (.tag (tag.commit name (value ++ s)) .between) rest := by
  induction s generalizing value with
  | nil =>
    rw [List.nil_append, List.append_nil, tokensFrom, State.step, Tag.step, if_pos rfl]
    rfl
  | cons b s ih =>
    obtain ⟨hb, hs⟩ := not_or.mp (mt List.mem_cons.mpr h)
    rw [List.cons_append, tokensFrom, State.step, Tag.step, if_neg (Ne.symm hb)]
    dsimp only
    rw [List.nil_append, ih hs, List.append_assoc]
    rfl

/-! ## Line ends -/

theorem normalizeNewlines_cons {b : UInt8} (h : b ≠ 0x0D) (s : Text) :
    normalizeNewlines (b :: s) = b :: normalizeNewlines s := by
  rw [normalizeNewlines.eq_2 b s fun _ hb _ => h hb, if_neg h]

theorem normalizeNewlines_append_of_not_mem {s : Text} (h : 0x0D ∉ s) (t : Text) :
    normalizeNewlines (s ++ t) = s ++ normalizeNewlines t := by
  induction s with
  | nil => rfl
  | cons b s ih =>
    obtain ⟨hb, hs⟩ := not_or.mp (mt List.mem_cons.mpr h)
    rw [List.cons_append, normalizeNewlines_cons (Ne.symm hb), ih hs, List.cons_append]

/-- Only a line feed could belong to what comes before it. -/
theorem normalizeNewlines_append_cons {b : UInt8} (h : b ≠ 0x0A) (s t : Text) :
    normalizeNewlines (s ++ b :: t) = normalizeNewlines s ++ normalizeNewlines (b :: t) := by
  fun_induction normalizeNewlines s with
  | case1 s ih => rw [List.cons_append, List.cons_append, normalizeNewlines, ih, List.cons_append]
  | case2 c s hne ih =>
    rw [List.cons_append, normalizeNewlines.eq_2, ih, List.cons_append]
    intro s' hc hs'
    cases s with
    | nil => exact h (List.cons.inj hs').1
    | cons d s => exact hne s hc (by rw [(List.cons.inj hs').1])
  | case3 => rfl

/-- Line ends have nothing to do with markup. -/
theorem plainText_normalizeNewlines (s : Text) :
    PlainText (normalizeNewlines s) ↔ PlainText s := by
  have hspace : ∀ s, PlainText (0x20 :: s) ↔ PlainText s := plainText_cons_of_ne (by decide)
  have hfeed : ∀ s, PlainText (0x0A :: s) ↔ PlainText s := plainText_cons_of_ne (by decide)
  have hreturn : ∀ s, PlainText (0x0D :: s) ↔ PlainText s := plainText_cons_of_ne (by decide)
  have hcons : ∀ a b s, PlainText (a :: b :: s) ↔
      ¬ (a = 0x3C ∧ opensMarkup b = true) ∧ PlainText (b :: s) :=
    fun _ _ _ => List.isChain_cons_cons
  -- with a byte before it
  suffices h : ∀ a, PlainText (a :: normalizeNewlines s) ↔ PlainText (a :: s) by
    rw [← hspace, h, hspace]
  have hnot : opensMarkup 0x0A = false ∧ opensMarkup 0x0D = false := by decide
  fun_induction normalizeNewlines s with
  | case1 s ih => simp [hcons, hnot, ih]
  | case2 b s hne ih =>
    intro a
    by_cases hb : b = 0x0D
    · subst hb
      rw [if_pos rfl, hcons, hcons, ih, hfeed, hreturn]
      simp [hnot]
    · rw [if_neg hb, hcons, hcons, ih]
  | case3 => exact fun _ => Iff.rfl

end PpcaNetwork.Html
