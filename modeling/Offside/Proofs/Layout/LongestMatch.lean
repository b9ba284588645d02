import Offside.Proofs.Layout.Positions
import Offside.Proofs.Layout.Written
import Offside.Proofs.Writing.Words

/-!
# The longest match

The patterns are tried in the order of the table, and the first one that matches is taken without
a look at those behind it.  Nothing is lost by this: where texts of two patterns begin a source,
the text of the earlier pattern is longer.  Two patterns that are open, such as words and numbers,
start with different characters, except that a carriage return may start the end of a line as well
as blanks; a mark starts with no character that an open pattern starts with; and a mark that
begins with another mark stands in front of it.

What is done at a match moves over the text that was matched, or, for a mark, over the text that
the mark is always written with.  Both have the same length.

Main definitions:

- `Shape.outranks`: a test on two shapes, the first of which has the longer match.
- `Scanner.handleFirst`: what is done at the first pattern that matches, with every cut checked.
- `Scanner.LongestMatch`: what is said of a scanner, a pattern and its match.

Main results:

- Theorem `Shape.byteSize_lt_of_outranks`: the test is right for all sources.
- Theorem `Scanner.handleFirst_eq`: a reading is what is done at the first pattern that matches.
- Theorem `Scanner.scans_longestMatch`: the first match is the longest, and so the scan ends
  after at most one step for each byte.
-/

namespace Offside

open Source (byteSize)

/-! ## Competing shapes -/

namespace Shape

variable {shape other : Shape} {source text rest text' rest' : Source} {c : Char}

/-- The characters that a text of some shape may start with. -/
def startsWith : Shape → Char → Bool
  | .word, c => startsWord c
  | .digits, c => c.isDigit
  | .lineBreak, c => c = '\n' || c = '\r'
  | .blanks, c => isSpace c
  | .comment, c => c = '#'
  | .quotation, c => c = '"' || c = '\''
  | .exact text, c => text.head? = some c

theorem startsWith_of_split? (hshape : shape ≠ .exact [])
    (h : shape.split? (c :: source) = some (text, rest)) : shape.startsWith c = true := by
  cases shape with
  | word | quotation =>
    simp only [split?] at h
    split at h
    · next hstarts => simpa [startsWith] using hstarts
    · cases h
  | digits | blanks =>
    simp only [split?, splitWhile?, List.takeWhile_cons] at h
    split at h
    · cases h
    · next htake =>
      split at htake
      · next hc => exact hc
      · cases htake
  | lineBreak | comment =>
    simp only [startsWith]
    unfold split? at h
    split at h <;> simp_all
  | exact word =>
    cases word with
    | nil => exact absurd rfl hshape
    | cons first more =>
      simp only [split?] at h
      split at h
      · next hbegins =>
        have hfirst : first = c := by simp_all
        simp [startsWith, hfirst]
      · cases h

/-- The open shape whose texts a character starts; a carriage return counts as a blank. -/
def openedBy (c : Char) : Shape :=
  if startsWord c then .word
  else if c.isDigit then .digits
  else if c = '\n' then .lineBreak
  else if isSpace c then .blanks
  else if c = '#' then .comment
  else .quotation

/-- Whether a shape has texts of several kinds. -/
def isOpen : Shape → Bool
  | .exact _ => false
  | _ => true

/-- A character starts texts of one open shape only, but for a carriage return. -/
theorem eq_openedBy (hopen : shape.isOpen = true) (h : shape.startsWith c = true) :
    shape = openedBy c ∨ c = '\r' ∧ shape = .lineBreak := by
  cases shape with
  | word => exact .inl (if_pos h).symm
  | digits =>
    have hdigit : c.isDigit = true := h
    have hword : ¬startsWord c = true := by simp [not_startsWord_of_isDigit hdigit]
    rw [openedBy, if_neg hword, if_pos hdigit]
    exact .inl rfl
  | lineBreak =>
    simp only [startsWith, Bool.or_eq_true, decide_eq_true_eq] at h
    rcases h with rfl | rfl
    · exact .inl rfl
    · exact .inr ⟨rfl, rfl⟩
  | blanks =>
    simp only [startsWith, isSpace, Bool.or_eq_true, decide_eq_true_eq] at h
    rcases h with (rfl | rfl) | rfl <;> exact .inl rfl
  | comment =>
    simp only [startsWith, decide_eq_true_eq] at h
    subst h
    exact .inl rfl
  | quotation =>
    simp only [startsWith, Bool.or_eq_true, decide_eq_true_eq] at h
    rcases h with rfl | rfl <;> exact .inl rfl
  | exact word => cases hopen

/-- Whether the match of one shape is longer than that of another wherever both match. -/
def outranks : Shape → Shape → Bool
  | .exact text, .exact other => !text.isPrefixOf other
  | .exact _, _ => false
  | shape, .exact other => other.head?.any fun c => !shape.startsWith c
  | .blanks, .lineBreak => false
  | shape, other => shape ≠ other

theorem exists_exact (h : shape.isOpen = false) : ∃ word, shape = .exact word := by
  cases shape with
  | exact word => exact ⟨word, rfl⟩
  | word | digits | lineBreak | blanks | comment | quotation => cases h

theorem outranks_exact (hopen : shape.isOpen = true) (word : List Char) :
    shape.outranks (.exact word) = word.head?.any fun c => !shape.startsWith c := by
  cases shape with
  | exact word => cases hopen
  | word | digits | lineBreak | blanks | comment | quotation => rfl

/-- Only another open shape outranks an open shape, and blanks do not outrank ends of lines. -/
theorem open_of_outranks (hopen : other.isOpen = true) (h : shape.outranks other = true) :
    shape.isOpen = true ∧ shape ≠ other ∧ ¬(shape = .blanks ∧ other = .lineBreak) := by
  cases other with
  | exact word => cases hopen
  | word | digits | lineBreak | blanks | comment | quotation =>
    cases shape <;> simp_all [outranks, isOpen]

theorem byteSize_lt_of_prefix (h : text' <+: text) (hne : text' ≠ text) :
    byteSize text' < byteSize text := by
  rcases h with ⟨more, rfl⟩
  have hmore : more ≠ [] := by
    rintro rfl
    exact hne (List.append_nil _).symm
  rw [Source.byteSize_append]
  exact Nat.lt_add_of_pos_right (Source.byteSize_pos hmore)

theorem split?_exact {word : List Char} (h : (exact word).split? source = some (text, rest)) :
    text = word ∧ word <+: source := by
  simp only [split?] at h
  split at h
  · next hbegins =>
    cases h
    exact ⟨rfl, List.isPrefixOf_iff_prefix.mp hbegins⟩
  · cases h

/-- Where a carriage return starts the end of a line, it is the only blank there. -/
theorem byteSize_blanks_lt (h : lineBreak.split? source = some (text, rest))
    (h' : blanks.split? source = some (text', rest')) : byteSize text' < byteSize text := by
  obtain ⟨more, rfl | ⟨rfl, rfl⟩⟩ : ∃ more, source = '\n' :: more ∨
      source = '\r' :: '\n' :: more ∧ text = ['\r', '\n'] := by
    unfold split? at h
    split at h <;> simp_all
  · cases h'
  · have hone : blanks.split? ('\r' :: '\n' :: more) = some (['\r'], '\n' :: more) := rfl
    cases hone.symm.trans h'
    exact byteSize_lt_of_prefix ⟨['\n'], rfl⟩ (by simp)

/-- The test is right: where texts of two shapes begin a source and the one shape outranks the
other, its text is longer. -/
theorem byteSize_lt_of_outranks (hrank : shape.outranks other = true)
    (hshape : shape ≠ .exact []) (hother : other ≠ .exact [])
    (h : shape.split? source = some (text, rest))
    (h' : other.split? source = some (text', rest')) : byteSize text' < byteSize text := by
  obtain ⟨c, more, rfl⟩ : ∃ c more, source = c :: more := by
    obtain ⟨rfl, hne⟩ := split?_append hshape h
    obtain ⟨c, text, rfl⟩ := List.exists_cons_of_ne_nil hne
    exact ⟨c, text ++ rest, rfl⟩
  have hstarts := startsWith_of_split? hshape h
  have hstarts' := startsWith_of_split? hother h'
  cases hopen' : other.isOpen with
  | false =>
    obtain ⟨word', rfl⟩ := exists_exact hopen'
    obtain ⟨rfl, hprefix'⟩ := split?_exact h'
    cases hopen : shape.isOpen with
    | false =>
      -- one of the two words begins with the other, and the test says which
      obtain ⟨word, rfl⟩ := exists_exact hopen
      obtain ⟨rfl, hprefix⟩ := split?_exact h
      have hnot : ¬text <+: text' := by
        simpa [outranks, ← List.isPrefixOf_iff_prefix] using hrank
      rcases List.prefix_or_prefix_of_prefix hprefix hprefix' with hle | hle
      · exact absurd hle hnot
      · exact byteSize_lt_of_prefix hle fun heq => hnot (heq ▸ List.prefix_rfl)
    | true =>
      have hhead : text'.head? = some c := by simpa [startsWith] using hstarts'
      rw [outranks_exact hopen, hhead, Option.any_some, hstarts] at hrank
      cases hrank
  | true =>
    obtain ⟨hopen, hne, hreturn⟩ := open_of_outranks hopen' hrank
    rcases eq_openedBy hopen hstarts with heq | ⟨rfl, rfl⟩
    · rcases eq_openedBy hopen' hstarts' with heq' | ⟨rfl, rfl⟩
      · exact absurd (heq.trans heq'.symm) hne
      · exact absurd ⟨heq, rfl⟩ hreturn
    · rcases eq_openedBy hopen' hstarts' with rfl | ⟨-, rfl⟩
      · exact byteSize_blanks_lt h h'
      · exact absurd rfl hne

end Shape

namespace Pattern

/-! ## The first match -/

section First

variable {source text rest : Source} {pattern : Pattern} {role : Role}

/-- Each pattern of the table outranks those behind it. -/
theorem pairwise_table :
    table.Pairwise fun first second => first.shape.outranks second.shape = true := by
  decide

/-- The first pattern of the table whose shape a source begins with. -/
def firstMatching? (source : Source) : Option Pattern :=
  table.find? fun pattern => (pattern.shape.split? source).isSome

/-- What a source begins with is what the first pattern that matches splits off. -/
theorem first?_eq_firstMatching? (source : Source) :
    first? source = (firstMatching? source).bind fun pattern =>
      (pattern.shape.split? source).map fun (text, rest) => (pattern.role, text, rest) := by
  unfold first? firstMatching?
  induction table with
  | nil => rfl
  | cons pattern table ih =>
    rw [List.findSome?_cons, List.find?_cons]
    cases hsplit : pattern.shape.split? source with
    | none => exact ih
    | some pieces => simp [hsplit]

/-- The match of the first pattern that matches is longer than all other matches. -/
theorem byteSize_lt_of_firstMatching? (h : firstMatching? source = some pattern)
    (hsplit : pattern.shape.split? source = some (text, rest)) {other : Pattern}
    (hmem : other ∈ table) (hne : other ≠ pattern) {text' rest' : Source}
    (hsplit' : other.shape.split? source = some (text', rest')) :
    byteSize text' < byteSize text := by
  obtain ⟨-, earlier, later, htable, hearlier⟩ := List.find?_eq_some_iff_append.mp h
  have hshapes : ∀ pattern ∈ table, pattern.shape ≠ .exact [] := by decide
  have hpattern : pattern ∈ table := by simp [htable]
  have hlater : other ∈ later := by
    rw [htable, List.mem_append, List.mem_cons] at hmem
    rcases hmem with hbefore | rfl | hbehind
    · have hnone := hearlier other hbefore
      simp [hsplit'] at hnone
    · exact absurd rfl hne
    · exact hbehind
  have hrank : pattern.shape.outranks other.shape = true := by
    have hpairs := pairwise_table
    rw [htable, List.pairwise_append] at hpairs
    exact (List.pairwise_cons.mp hpairs.2.1).1 other hlater
  exact Shape.byteSize_lt_of_outranks hrank (hshapes pattern hpattern) (hshapes other hmem) hsplit
    hsplit'

/-- The text that is moved over where a pattern matches: for a mark the one that it is always
written with, and else what the pattern splits off. -/
def moved? (pattern : Pattern) (source : Source) : Option Source :=
  match pattern.role with
  | .mark kind => kind.lexeme?.map String.toList
  | _ => (pattern.shape.split? source).map Prod.fst

end First

end Pattern

namespace Scanner

variable {source text rest : Source} {s : Scanner} {pattern : Pattern}

/-- What is done where a pattern matches: the token is added, and the position moves on. -/
def handle? (s : Scanner) (pattern : Pattern) : Option Scanner := do
  let text ← pattern.moved? s.rest
  (s.emit pattern.role text).advance? (byteSize text)

/-- What is done at the first pattern that matches, if there is one. -/
def handleFirst (source : Source) (s : Scanner) : Outcome Scanner :=
  match Pattern.firstMatching? s.rest with
  | some pattern =>
    match s.handle? pattern with
    | some t => .ok t
    | none => .error .offBoundary
  | none => .refuseAt source s.position (.unrecognisedToken (String.ofList (s.rest.take 1)))

/-- A pattern is the first that a scanner finds, and the text that it splits off is the longest of
all.  What is done there moves the scanner to the end of this text. -/
structure LongestMatch (s : Scanner) (pattern : Pattern) (text rest : Source) : Prop where
  splits : pattern.shape.split? s.rest = some (text, rest)
  append_eq : s.rest = text ++ rest
  nonempty : text ≠ []
  longest : ∀ other ∈ Pattern.table, other ≠ pattern → ∀ text' rest',
    other.shape.split? s.rest = some (text', rest') → byteSize text' < byteSize text
  handle_eq : ∃ t, s.handle? pattern = some t ∧ t.position = s.position + byteSize text ∧
    t.rest = rest

/-- A token that is added leaves the place in the source. -/
theorem emit_place (s : Scanner) (role : Role) (text : Source) :
    (s.emit role text).position = s.position ∧ (s.emit role text).rest = s.rest := by
  cases role with
  | lineBreak =>
    simp only [emit, endLine]
    split
    · split <;> exact ⟨rfl, rfl⟩
    · exact ⟨rfl, rfl⟩
  | word | number | string | skipped | mark kind => exact ⟨rfl, rfl⟩

/-- What is done at the first pattern that matches is to read what it splits off. -/
theorem handle?_eq (hsplit : pattern.shape.split? s.rest = some (text, rest))
    (h : Pattern.first? s.rest = some (pattern.role, text, rest)) :
    s.handle? pattern = some (s.read pattern.role text rest) := by
  have hmoved : pattern.moved? s.rest = some text := by
    unfold Pattern.moved?
    split
    · next kind hrole =>
      rw [hrole] at h
      rw [lexeme?_of_first?_mark h, Option.map_some, String.toList_ofList]
    · rw [hsplit, Option.map_some]
  obtain ⟨hposition, hrest⟩ := emit_place s pattern.role text
  rw [handle?, hmoved, Option.bind_eq_bind, Option.bind_some, advance?, hrest,
    (first?_append h).1, Source.splitAt?_append, Option.map_some, hposition, read]

theorem longestMatch (h : Pattern.firstMatching? s.rest = some pattern) :
    ∃ text rest, s.LongestMatch pattern text rest := by
  have hmatches : (pattern.shape.split? s.rest).isSome = true := by
    rw [Pattern.firstMatching?] at h
    simpa using List.find?_some h
  obtain ⟨⟨text, rest⟩, hsplit⟩ := Option.isSome_iff_exists.mp hmatches
  have hfirst : Pattern.first? s.rest = some (pattern.role, text, rest) := by
    rw [Pattern.first?_eq_firstMatching?, h, Option.bind_some, hsplit, Option.map_some]
  obtain ⟨hrest, hne⟩ := first?_append hfirst
  exact ⟨text, rest, hsplit, hrest, hne,
    fun _ hmem hother _ _ => Pattern.byteSize_lt_of_firstMatching? h hsplit hmem hother,
    _, handle?_eq hsplit hfirst, rfl, rfl⟩

/-- A reading is what is done at the first pattern that matches; no cut is off. -/
theorem handleFirst_eq (source : Source) (s : Scanner) :
    s.handleFirst source = s.readOne source := by
  unfold handleFirst readOne
  cases h : Pattern.firstMatching? s.rest with
  | none => rw [Pattern.first?_eq_firstMatching?, h, Option.bind_none]
  | some pattern =>
    obtain ⟨text, rest, hlongest⟩ := longestMatch h
    have hfirst : Pattern.first? s.rest = some (pattern.role, text, rest) := by
      rw [Pattern.first?_eq_firstMatching?, h, Option.bind_some, hlongest.splits, Option.map_some]
    simp only [handle?_eq hlongest.splits hfirst, hfirst]
    rfl

/-! ## The scan -/

theorem length_le_byteSize (source : Source) : source.length ≤ byteSize source := by
  induction source with
  | nil => exact Nat.le_refl _
  | cons c source ih =>
    have hpos := c.utf8Size_pos
    rw [List.length_cons, Source.byteSize_cons]
    omega

/-- At every place, what is read is done by the first pattern of the table that matches, and its
match is the longest.  So a step for each byte is enough: the scan ends with the tokens or with a
refusal. -/
theorem scans_longestMatch (source : Source) :
    (∀ s : Scanner, s.readOne source = s.handleFirst source) ∧
      (∀ (s : Scanner) (pattern : Pattern), Pattern.firstMatching? s.rest = some pattern →
        ∃ text rest, s.LongestMatch pattern text rest) ∧
      tokenize source = (do
        let s ← run source (byteSize source) (start source)
        return s.finish (byteSize source)) ∧
      ((∃ tokens, tokenize source = .ok tokens) ∨
        ∃ diagnostic, tokenize source = .error (.refused diagnostic)) := by
  refine ⟨fun s => (handleFirst_eq source s).symm, fun s pattern => longestMatch, ?_, ?_⟩
  · rw [run_eq_scan (length_le_byteSize source)]
    exact tokenize_eq_scan source
  · cases htokens : tokenize source with
    | ok tokens => exact .inl ⟨tokens, rfl⟩
    | error failure =>
      obtain ⟨diagnostic, rfl⟩ := refused_of_tokenize htokens
      exact .inr ⟨diagnostic, rfl⟩

/-- A carriage return in front of a line feed ends the line with it and is no blank. -/
theorem scans_longestMatch_returnLineFeed :
    Pattern.firstMatching? (start "\r\nx".toList).rest = some ⟨.lineBreak, .lineBreak⟩ ∧
      ∃ text rest, (start "\r\nx".toList).LongestMatch ⟨.lineBreak, .lineBreak⟩ text rest :=
  ⟨by decide, (scans_longestMatch "\r\nx".toList).2.1 _ _ (by decide)⟩

end Scanner
end Offside
