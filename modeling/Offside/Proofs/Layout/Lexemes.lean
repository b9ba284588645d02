import Offside.Token.Pattern

/-!
# Lexemes

The pieces that a source is read in, one after the other, up to the first character that
nothing starts with.  Which pattern reads a piece shows in its first character.

Main definitions:

- `Lexeme`: a piece of a source with its role.
- `lexemes`: the pieces of a source.

Main results:

- Theorem `first?_append`: what is read is the beginning of the source, and not empty.
- Theorem `lexemes_eq`: the pieces of a source are the first one and those of the rest.
- Theorem `isLayout_of_mem_lexemes`: no piece of a source stands for layout.
-/

namespace Offside

/-- The kind of the token that a text in a role stands for, if it is one. -/
def Role.kind? (role : Role) (word : String) : Option TokenKind :=
  match role with
  | .word => some (.ofWord word)
  | .number => some .number
  | .string => some .string
  | .mark kind => some kind
  | .lineBreak | .skipped => none

/-! ## What is read -/

section Reading

variable {source text rest : Source} {role : Role}

/-- What is read has the shape of a pattern of the table. -/
theorem exists_pattern (h : Pattern.first? source = some (role, text, rest)) :
    ∃ pattern ∈ Pattern.table, pattern.role = role ∧
      pattern.shape.split? source = some (text, rest) := by
  rcases List.exists_of_findSome?_eq_some h with ⟨pattern, hmem, hpattern⟩
  rcases Option.map_eq_some_iff.mp hpattern with ⟨⟨text, rest⟩, hsplit, heq⟩
  cases heq
  exact ⟨pattern, hmem, rfl, hsplit⟩

/-- What is split off and the rest make up the source. -/
theorem splitWhile?_append {passes : Char → Bool}
    (h : Shape.splitWhile? passes source = some (text, rest)) :
    source = text ++ rest ∧ text ≠ [] := by
  unfold Shape.splitWhile? at h
  split at h
  · cases h
  · next htake =>
    cases h
    exact ⟨by rw [← htake, List.takeWhile_append_dropWhile], List.cons_ne_nil _ _⟩

/-- So do a quotation and the rest. -/
theorem splitQuotation?_append {quote : Char}
    (h : Shape.splitQuotation? quote source = some (text, rest)) :
    quote :: source = text ++ rest ∧ text ≠ [] := by
  simp only [Shape.splitQuotation?] at h
  split at h
  · next c after hdrop =>
    split at h
    · next hquote =>
      cases h
      subst hquote
      refine ⟨?_, by simp⟩
      rw [List.append_assoc, List.singleton_append, ← hdrop, List.cons_append,
        List.takeWhile_append_dropWhile]
    · cases h
  · cases h

/-- A piece of some shape is the beginning of the source. -/
theorem split?_append {shape : Shape} (hshape : shape ≠ .exact [])
    (h : shape.split? source = some (text, rest)) : source = text ++ rest ∧ text ≠ [] := by
  unfold Shape.split? at h
  split at h
  · split at h
    · cases h
      simp
    · cases h
  · exact splitWhile?_append h
  · cases h
    simp
  · cases h
    simp
  · exact splitWhile?_append h
  · cases h
    simp
  · split at h
    · exact splitQuotation?_append h
    · cases h
  · next exactText _ =>
    split at h
    · next hprefix =>
      cases h
      rcases List.isPrefixOf_iff_prefix.mp hprefix with ⟨after, rfl⟩
      refine ⟨by simp, ?_⟩
      rintro rfl
      exact hshape rfl
    · cases h
  · cases h

/-- What is read is the beginning of the source, and it is not empty. -/
theorem first?_append (h : Pattern.first? source = some (role, text, rest)) :
    source = text ++ rest ∧ text ≠ [] := by
  rcases exists_pattern h with ⟨pattern, hmem, -, hsplit⟩
  have hshapes : ∀ pattern ∈ Pattern.table, pattern.shape ≠ .exact [] := by decide
  exact split?_append (hshapes pattern hmem) hsplit

/-- A reading leaves less than there was. -/
theorem length_lt_of_first? (h : Pattern.first? source = some (role, text, rest)) :
    rest.length < source.length := by
  obtain ⟨rfl, hne⟩ := first?_append h
  have hpos := List.length_pos_iff.mpr hne
  rw [List.length_append]
  omega

/-! ## Roles -/

/-- A word is no layout. -/
theorem isLayout_ofWord (word : String) : (TokenKind.ofWord word).isLayout = false := by
  have hreserved : ∀ entry ∈ TokenKind.reservedWords, entry.2.isLayout = false := by decide
  rw [TokenKind.ofWord, TokenKind.ofReserved?]
  cases hlookup : TokenKind.reservedWords.lookup word with
  | none => rfl
  | some kind =>
    rcases List.lookup_eq_some_iff.mp hlookup with ⟨before, after, hwords, -⟩
    exact hreserved (word, kind) (by simp [hwords])

/-- Nothing that is read stands for layout. -/
theorem isLayout_of_first? {word : String} {kind : TokenKind}
    (h : Pattern.first? source = some (role, text, rest)) (hkind : role.kind? word = some kind) :
    kind.isLayout = false := by
  rcases exists_pattern h with ⟨pattern, hmem, rfl, -⟩
  have hmarks : ∀ pattern ∈ Pattern.table,
      pattern.role ∉ [Role.mark .newline, .mark .indent, .mark .dedent] := by
    decide
  cases hrole : pattern.role with
  | word =>
    rw [hrole] at hkind
    cases hkind
    exact isLayout_ofWord word
  | mark kind =>
    have hmark := hmarks pattern hmem
    rw [hrole] at hkind hmark
    cases hkind
    cases kind <;> first | rfl | simp at hmark
  | number | string =>
    rw [hrole] at hkind
    cases hkind
    rfl
  | lineBreak | skipped =>
    rw [hrole] at hkind
    cases hkind

/-! ## First characters -/

/-- What is neither a word nor a mark starts as such. -/
theorem first_of_kind?_none {c : Char} {word : String}
    (h : Pattern.first? (c :: source) = some (role, text, rest)) (hkind : role.kind? word = none) :
    c = ' ' ∨ c = '\t' ∨ c = '\r' ∨ c = '\n' ∨ c = '#' := by
  rcases exists_pattern h with ⟨pattern, hmem, rfl, hsplit⟩
  have hplain : ∀ pattern ∈ Pattern.table, pattern.role = .lineBreak ∨ pattern.role = .skipped →
      pattern.shape = .lineBreak ∨ pattern.shape = .blanks ∨ pattern.shape = .comment := by
    decide
  have hrole : pattern.role = .lineBreak ∨ pattern.role = .skipped := by
    cases hpattern : pattern.role <;> simp_all [Role.kind?]
  rcases hplain pattern hmem hrole with hshape | hshape | hshape
  · rw [hshape] at hsplit
    unfold Shape.split? at hsplit
    split at hsplit <;> simp_all
  · rw [hshape] at hsplit
    by_cases hspace : Shape.isSpace c = true
    · simp only [Shape.isSpace, Bool.or_eq_true, decide_eq_true_eq] at hspace
      rcases hspace with (rfl | rfl) | rfl <;> simp
    · simp [Shape.split?, Shape.splitWhile?, hspace] at hsplit
  · rw [hshape] at hsplit
    unfold Shape.split? at hsplit
    split at hsplit <;> simp_all

/-- Blanks are passed over. -/
theorem first?_blanks {c : Char} (hspace : c = ' ' ∨ c = '\t') :
    Pattern.first? (c :: source) = some (.skipped, c :: source.takeWhile Shape.isSpace,
      source.dropWhile Shape.isSpace) := by
  rcases hspace with rfl | rfl <;>
    simp [Pattern.first?, Pattern.table, Shape.split?, Shape.splitWhile?, Shape.startsWord,
      Shape.isSpace]

/-- A carriage return that ends no line is passed over with the blanks behind it. -/
theorem first?_return (h : source.head? ≠ some '\n') :
    Pattern.first? ('\r' :: source) = some (.skipped, '\r' :: source.takeWhile Shape.isSpace,
      source.dropWhile Shape.isSpace) := by
  cases source with
  | nil => rfl
  | cons c rest =>
    have hc : c ≠ '\n' := fun heq => h (congrArg some heq)
    simp [Pattern.first?, Pattern.table, Shape.split?, Shape.splitWhile?, Shape.startsWord,
      Shape.isSpace, hc]

/-- A line feed is a line break. -/
theorem first?_lineFeed : Pattern.first? ('\n' :: source) = some (.lineBreak, ['\n'], source) := by
  simp [Pattern.first?, Pattern.table, Shape.split?, Shape.splitWhile?, Shape.startsWord]

/-- So is a carriage return with a line feed. -/
theorem first?_returnLineFeed :
    Pattern.first? ('\r' :: '\n' :: source) = some (.lineBreak, ['\r', '\n'], source) := by
  simp [Pattern.first?, Pattern.table, Shape.split?, Shape.splitWhile?, Shape.startsWord]

/-- A comment is passed over. -/
theorem first?_comment : Pattern.first? ('#' :: source) =
    some (.skipped, '#' :: source.takeWhile (· ≠ '\n'), source.dropWhile (· ≠ '\n')) := by
  simp [Pattern.first?, Pattern.table, Shape.split?, Shape.splitWhile?, Shape.startsWord,
    Shape.isSpace]

end Reading

/-! ## Lexemes -/

/-- A piece of a source that is read at once, with its role; a character that nothing starts
with has none. -/
structure Lexeme where
  role : Option Role
  text : Source
  deriving DecidableEq, Repr

namespace Lexeme

/-- The kind of the token that a lexeme stands for, if it is one. -/
def kind? (lexeme : Lexeme) : Option TokenKind :=
  lexeme.role.bind fun role => role.kind? (String.ofList lexeme.text)

/-- Whether a lexeme is blank or a comment. -/
def isSkipped (lexeme : Lexeme) : Bool := lexeme.role = some .skipped

/-- Whether a lexeme ends a line. -/
def isBreak (lexeme : Lexeme) : Bool := lexeme.role = some .lineBreak

end Lexeme

/-- The first lexemes of a source, at most `fuel` of them. -/
def lexemesWithin : Nat → Source → List Lexeme
  | _, [] => []
  | 0, _ :: _ => []
  | fuel + 1, c :: source =>
    match Pattern.first? (c :: source) with
    | some (role, text, rest) => ⟨some role, text⟩ :: lexemesWithin fuel rest
    | none => [⟨none, [c]⟩]

/-- The lexemes of a source, up to the first character that nothing starts with. -/
def lexemes (source : Source) : List Lexeme := lexemesWithin source.length source

/-- The length of the source is a limit for its lexemes. -/
theorem lexemesWithin_eq {source : Source} {fuel : Nat} (h : source.length ≤ fuel) :
    lexemesWithin fuel source = lexemes source := by
  suffices hboth : ∀ (fuel : Nat) {more : Nat} {source : Source}, source.length ≤ fuel →
      source.length ≤ more → lexemesWithin fuel source = lexemesWithin more source from
    hboth fuel h (Nat.le_refl _)
  intro fuel
  induction fuel with
  | zero =>
    intro more source hfuel _
    rw [List.length_eq_zero_iff.mp (Nat.le_zero.mp hfuel)]
    unfold lexemesWithin
    rfl
  | succ fuel ih =>
    intro more source hfuel hmore
    cases source with
    | nil =>
      unfold lexemesWithin
      rfl
    | cons c source =>
      cases more with
      | zero => exact absurd hmore (Nat.not_succ_le_zero _)
      | succ more =>
        unfold lexemesWithin
        cases hfirst : Pattern.first? (c :: source) with
        | none => rfl
        | some entry =>
          rcases entry with ⟨role, text, rest⟩
          have hlength := length_lt_of_first? hfirst
          simp only [List.length_cons] at hfuel hmore hlength
          simp only [ih (show rest.length ≤ fuel by omega) (show rest.length ≤ more by omega)]

/-- The empty source has no lexemes. -/
@[simp]
theorem lexemes_nil : lexemes [] = [] := rfl

/-- The first lexeme is what is read first, the others are those of the rest. -/
theorem lexemes_of_first? {source text rest : Source} {role : Role}
    (h : Pattern.first? source = some (role, text, rest)) :
    lexemes source = ⟨some role, text⟩ :: lexemes rest := by
  have hlength := length_lt_of_first? h
  cases source with
  | nil => simp at hlength
  | cons c source =>
    rw [lexemes, List.length_cons, lexemesWithin, h]
    simp only [lexemesWithin_eq (Nat.lt_succ_iff.mp hlength)]

/-- A character that nothing starts with is the last lexeme. -/
theorem lexemes_of_first?_none {c : Char} {source : Source}
    (h : Pattern.first? (c :: source) = none) : lexemes (c :: source) = [⟨none, [c]⟩] := by
  rw [lexemes, List.length_cons, lexemesWithin, h]

/-- The lexemes of a source are those of what it begins with, and of the rest. -/
theorem lexemes_eq {source : Source} {lexeme : Lexeme} {more : List Lexeme}
    (h : lexemes source = lexeme :: more) :
    (∃ role rest, lexeme.role = some role ∧
      Pattern.first? source = some (role, lexeme.text, rest) ∧ lexemes rest = more) ∨
    (∃ c rest, lexeme = ⟨none, [c]⟩ ∧ more = [] ∧ source = c :: rest ∧
      Pattern.first? source = none) := by
  cases source with
  | nil => cases h
  | cons c source =>
    cases hfirst : Pattern.first? (c :: source) with
    | none =>
      rw [lexemes_of_first?_none hfirst, List.cons.injEq] at h
      exact .inr ⟨c, source, h.1.symm, h.2.symm, rfl, rfl⟩
    | some entry =>
      rcases entry with ⟨role, text, rest⟩
      rw [lexemes_of_first? hfirst, List.cons.injEq] at h
      rcases h with ⟨rfl, rfl⟩
      exact .inl ⟨role, rest, rfl, rfl, rfl⟩

/-- Only the last lexeme can be a character that nothing starts with. -/
theorem role_ne_none_of_append {source : Source} {front back : List Lexeme}
    (h : lexemes source = front ++ back) (hback : back ≠ []) :
    ∀ lexeme ∈ front, lexeme.role ≠ none := by
  induction front generalizing source with
  | nil => simp
  | cons lexeme front ih =>
    intro other hother
    rcases lexemes_eq h with ⟨role, rest, hrole, -, hmore⟩ | ⟨c, rest, rfl, hnil, -⟩
    · rcases List.mem_cons.mp hother with rfl | hmem
      · simp [hrole]
      · exact ih hmore other hmem
    · exact absurd (List.append_eq_nil_iff.mp hnil).2 hback

/-- Only the empty source has no lexemes. -/
theorem eq_nil_of_lexemes {source : Source} (h : lexemes source = []) : source = [] := by
  cases source with
  | nil => rfl
  | cons c rest =>
    cases hfirst : Pattern.first? (c :: rest) with
    | none =>
      rw [lexemes_of_first?_none hfirst] at h
      cases h
    | some entry =>
      rcases entry with ⟨role, text, behind⟩
      rw [lexemes_of_first? hfirst] at h
      cases h

/-- If some lexeme is a character that nothing starts with, the last one is, and only that. -/
theorem exists_stuck {source : Source} {lexeme : Lexeme} (hmem : lexeme ∈ lexemes source)
    (hrole : lexeme.role = none) :
    ∃ front, lexemes source = front ++ [lexeme] ∧ ∀ other ∈ front, other.role ≠ none := by
  rcases List.append_of_mem hmem with ⟨front, back, hsplit⟩
  cases back with
  | nil => exact ⟨front, hsplit, role_ne_none_of_append hsplit (List.cons_ne_nil _ _)⟩
  | cons next back =>
    have happend : lexemes source = (front ++ [lexeme]) ++ next :: back := by simp [hsplit]
    exact absurd hrole
      (role_ne_none_of_append happend (List.cons_ne_nil _ _) lexeme (by simp))

/-- No lexeme stands for layout. -/
theorem isLayout_of_mem_lexemes {source : Source} {lexeme : Lexeme} {kind : TokenKind}
    (hmem : lexeme ∈ lexemes source) (hkind : lexeme.kind? = some kind) :
    kind.isLayout = false := by
  generalize hall : lexemes source = all at hmem
  induction all generalizing source with
  | nil => cases hmem
  | cons first more ih =>
    rcases lexemes_eq hall with ⟨role, rest, hrole, hfirst, hmore⟩ | ⟨c, rest, rfl, rfl, -⟩
    · rcases List.mem_cons.mp hmem with rfl | hmem
      · rw [Lexeme.kind?, hrole] at hkind
        exact isLayout_of_first? hfirst hkind
      · exact ih hmore hmem
    · rw [List.mem_singleton.mp hmem] at hkind
      cases hkind

end Offside
