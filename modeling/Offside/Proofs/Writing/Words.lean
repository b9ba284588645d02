import Offside.Proofs.Layout.Lexemes
import Offside.Proofs.Writing.Spelling
import Offside.Proofs.Text.Decimal

/-!
# Readable words

Each word of a written expression is read as one token by the pattern table, wherever a
blank, a colon, a line feed or the end of the source comes behind it.

Main definitions:

- `ReadsAs`: a word is read in a role.
- `Readable`: a word that is read as one token of a kind.
- `AllReadable`: words that are read as one token each.

Main results:

- Theorems `readable_name`, `readable_number`, `readable_quotation`, `readable_reserved` and
  `readable_mark`: the words of expressions are readable.
-/

namespace Offside

/-! ## Reading a word -/

/-- What follows a word: nothing, a blank, a colon or the end of the line. -/
def Ends (rest : Source) : Prop := ∀ c ∈ rest.head?, c ∈ [' ', ':', '\n']

/-- At the end of a source a word ends. -/
theorem ends_nil : Ends [] := by
  simp [Ends]

/-- So it does in front of a blank, a colon or a line feed. -/
theorem ends_cons {c : Char} (h : c ∈ [' ', ':', '\n']) (rest : Source) : Ends (c :: rest) := by
  rintro _ ⟨rfl⟩
  exact h

/-- Nothing is split off where the first character does not pass. -/
theorem splits_nothing {passes : Char → Bool} {rest : Source}
    (h : ∀ c ∈ rest.head?, passes c = false) :
    rest.takeWhile passes = [] ∧ rest.dropWhile passes = rest := by
  cases rest with
  | nil => exact ⟨rfl, rfl⟩
  | cons c more => simp [h c rfl]

/-- What ends a word goes on with none. -/
theorem Ends.splits_nothing {rest : Source} (h : Ends rest) {passes : Char → Bool}
    (hstop : [' ', ':', '\n'].any passes = false) :
    rest.takeWhile passes = [] ∧ rest.dropWhile passes = rest :=
  Offside.splits_nothing fun c hc => by simpa using List.any_eq_false.mp hstop c (h c hc)

/-- Before what ends a word, a source that begins with the word is read as this word in a role. -/
def ReadsAs (word : String) (role : Role) : Prop :=
  ∀ rest, Ends rest → Pattern.first? (word.toList ++ rest) = some (role, word.toList, rest)

/-- A word is read as one token of a kind, and does not start with what has no meaning at
the start of a line. -/
structure Readable (word : String) (kind : TokenKind) : Prop where
  reads : ∃ role, ReadsAs word role ∧ role.kind? word = some kind
  starts : ∃ first more, word.toList = first :: more ∧
    first ∉ [' ', '\t', '\r', '\n', '#']
  notNewline : kind ≠ .newline

/-- In front of a rest, a word is read as one token of a kind. -/
def ReadsBefore (word : String) (kind : TokenKind) (rest : Source) : Prop :=
  ∃ role, Pattern.first? (word.toList ++ rest) = some (role, word.toList, rest) ∧
    role.kind? word = some kind

/-- A readable word is read in front of what ends a word. -/
theorem Readable.readsBefore {word : String} {kind : TokenKind} (h : Readable word kind)
    {rest : Source} (hends : Ends rest) : ReadsBefore word kind rest := by
  rcases h.reads with ⟨role, hreads, hkind⟩
  exact ⟨role, hreads rest hends, hkind⟩

/-- A source is read by the first pattern of the table whose shape it begins with. -/
theorem first?_eq (before : List Pattern) {after : List Pattern} {pattern : Pattern}
    {source text rest : Source}
    (htable : Pattern.table = before ++ pattern :: after)
    (hbefore : ∀ earlier ∈ before, earlier.shape.split? source = none)
    (hsplit : pattern.shape.split? source = some (text, rest)) :
    Pattern.first? source = some (pattern.role, text, rest) := by
  rw [Pattern.first?, htable, List.findSome?_append, List.findSome?_eq_none_iff.mpr,
    List.findSome?_cons, hsplit]
  · rfl
  · intro earlier hearlier
    rw [hbefore earlier hearlier]
    rfl

/-- Letters, digits and underscores are read as one word, up to what does not go on with it. -/
theorem first?_word {word : String} {first : Char} {more : List Char} {rest : Source}
    (hword : word.toList = first :: more) (hfirst : Shape.startsWord first = true)
    (hmore : ∀ c ∈ more, Shape.continuesWord c = true)
    (hrest : ∀ c ∈ rest.head?, Shape.continuesWord c = false) :
    Pattern.first? (word.toList ++ rest) = some (.word, word.toList, rest) := by
  have hnone := splits_nothing hrest
  have htake : (more ++ rest).takeWhile Shape.continuesWord = more := by
    rw [List.takeWhile_append_of_pos hmore, hnone.1, List.append_nil]
  have hdrop : (more ++ rest).dropWhile Shape.continuesWord = rest := by
    rw [List.dropWhile_append_of_pos hmore, hnone.2]
  have hsplit : Shape.word.split? (word.toList ++ rest) = some (word.toList, rest) := by
    rw [hword, List.cons_append, Shape.split?, if_pos hfirst, htake, hdrop]
  exact first?_eq [] rfl (by simp) hsplit

/-- Letters and digits are read as a word. -/
theorem readsAs_word {word : String} {first : Char} {more : List Char}
    (hword : word.toList = first :: more) (hfirst : Shape.startsWord first = true)
    (hmore : ∀ c ∈ more, Shape.continuesWord c = true) : ReadsAs word .word := by
  intro rest hends
  refine first?_word hword hfirst hmore fun c hc => ?_
  have hstop : [' ', ':', '\n'].any Shape.continuesWord = false := by decide
  simpa using List.any_eq_false.mp hstop c (hends c hc)

/-- A readable word of letters, digits and underscores is read in front of all that does not go on
with it. -/
theorem Readable.readsBefore_word {word : String} {kind : TokenKind} (h : Readable word kind)
    {first : Char} {more : List Char} {rest : Source} (hword : word.toList = first :: more)
    (hfirst : Shape.startsWord first = true) (hmore : ∀ c ∈ more, Shape.continuesWord c = true)
    (hrest : ∀ c ∈ rest.head?, Shape.continuesWord c = false) : ReadsBefore word kind rest := by
  obtain ⟨role, hreads, hkind⟩ := h.reads
  have hsame := (hreads [] ends_nil).symm.trans (first?_word hword hfirst hmore nofun)
  obtain rfl : role = .word := by simpa using hsame
  exact ⟨.word, first?_word hword hfirst hmore hrest, hkind⟩

/-- No word starts with a digit. -/
theorem not_startsWord_of_isDigit {c : Char} (h : c.isDigit = true) :
    Shape.startsWord c = false := by
  rw [Char.isDigit_iff_toNat] at h
  rcases h with ⟨hlow, hhigh⟩
  have hline : c ≠ '_' := by
    rintro rfl
    revert hhigh
    decide
  have hletter : c.isAlpha = false := by
    unfold Char.isAlpha Char.isUpper Char.isLower
    simp only [UInt32.le_iff_toNat_le, ge_iff_le, Bool.or_eq_false_iff, Bool.and_eq_false_iff,
      decide_eq_false_iff_not, Nat.not_le]
    change ('0'.toNat ≤ c.val.toNat) at hlow
    change (c.val.toNat ≤ '9'.toNat) at hhigh
    have hnine : '9'.toNat = 57 := rfl
    have hupper : 'A'.val.toNat = 65 := rfl
    have hlower : 'a'.val.toNat = 97 := rfl
    omega
  simp [Shape.startsWord, hletter, hline]

/-- Digits are read as one number. -/
theorem readsAs_number {word : String} (hword : word.toList ≠ [])
    (hdigits : ∀ c ∈ word.toList, c.isDigit = true) : ReadsAs word .number := by
  intro rest hends
  rcases List.exists_cons_of_ne_nil hword with ⟨first, more, hchars⟩
  have hletter : Shape.startsWord first = false :=
    not_startsWord_of_isDigit (hdigits first (by simp [hchars]))
  have htake : (word.toList ++ rest).takeWhile Char.isDigit = word.toList := by
    rw [List.takeWhile_append_of_pos hdigits, (hends.splits_nothing (by decide)).1, List.append_nil]
  have hdrop : (word.toList ++ rest).dropWhile Char.isDigit = rest := by
    rw [List.dropWhile_append_of_pos hdigits, (hends.splits_nothing (by decide)).2]
  have hsplit : Shape.digits.split? (word.toList ++ rest) = some (word.toList, rest) := by
    rw [Shape.split?, Shape.splitWhile?, htake, hdrop, hchars]
  have hbefore : Shape.word.split? (word.toList ++ rest) = none := by
    rw [hchars, List.cons_append, Shape.split?, hletter]
    rfl
  exact first?_eq [⟨.word, .word⟩] rfl (by simpa using hbefore) hsplit

/-- A quotation is read as one string. -/
theorem readsAs_string {word : String} (hword : IsQuotation word) : ReadsAs word .string := by
  intro rest _
  rcases hword with ⟨quote, inside, hquote, hnot, hline, hchars⟩
  have hinside : ∀ c ∈ inside, (c ≠ quote && c ≠ '\n') = true := by
    intro c hc
    have hne : c ≠ quote := fun heq => hnot (heq ▸ hc)
    have hbreak : c ≠ '\n' := fun heq => hline (heq ▸ hc)
    simp [hne, hbreak]
  have htake : (inside ++ quote :: rest).takeWhile (fun c => c ≠ quote && c ≠ '\n') =
      inside := by
    rw [List.takeWhile_append_of_pos hinside]
    simp
  have hdrop : (inside ++ quote :: rest).dropWhile (fun c => c ≠ quote && c ≠ '\n') =
      quote :: rest := by
    rw [List.dropWhile_append_of_pos hinside]
    simp
  have hquotation : Shape.splitQuotation? quote (inside ++ quote :: rest) =
      some (quote :: inside ++ [quote], rest) := by
    rw [Shape.splitQuotation?, hdrop, htake]
    simp
  have hsource : word.toList ++ rest = quote :: (inside ++ quote :: rest) := by
    rw [hchars]
    simp
  have hsplit : Shape.quotation.split? (word.toList ++ rest) = some (word.toList, rest) := by
    rw [hsource, hchars, Shape.split?, hquotation]
    simp [hquote]
  refine first?_eq (Pattern.table.take 5) rfl ?_ hsplit
  rw [hsource]
  rcases hquote with rfl | rfl <;> simp [Pattern.table, Shape.split?, Shape.splitWhile?,
    Shape.startsWord, Shape.isSpace]

/-- A mark is read as such if it is at the end, and before each of what may follow. -/
theorem readsAs_mark {word : String} {kind : TokenKind}
    (hend : Pattern.first? word.toList = some (.mark kind, word.toList, []))
    (hblank : ∀ more, Pattern.first? (word.toList ++ ' ' :: more) =
      some (.mark kind, word.toList, ' ' :: more))
    (hcolon : ∀ more, Pattern.first? (word.toList ++ ':' :: more) =
      some (.mark kind, word.toList, ':' :: more))
    (hfeed : ∀ more, Pattern.first? (word.toList ++ '\n' :: more) =
      some (.mark kind, word.toList, '\n' :: more)) : ReadsAs word (.mark kind) := by
  intro rest hends
  cases rest with
  | nil => simpa using hend
  | cons c more =>
    have hc : c ∈ [' ', ':', '\n'] := hends c rfl
    simp only [List.mem_cons, List.not_mem_nil, or_false] at hc
    rcases hc with rfl | rfl | rfl
    · exact hblank more
    · exact hcolon more
    · exact hfeed more

/-- A word has one kind. -/
theorem Readable.kind_unique {word : String} {kind kind' : TokenKind} (h : Readable word kind)
    (h' : Readable word kind') : kind = kind' := by
  rcases h.reads with ⟨role, hreads, hkind⟩
  rcases h'.reads with ⟨role', hreads', hkind'⟩
  have hsame := (hreads [] ends_nil).symm.trans (hreads' [] ends_nil)
  simp only [Option.some.injEq, Prod.mk.injEq, and_true] at hsame
  rw [hsame, hkind'] at hkind
  exact (Option.some.inj hkind).symm

/-- What a word cannot start with starts no word. -/
theorem not_mem_of_startsWord {c : Char} (h : Shape.startsWord c = true) :
    c ∉ [' ', '\t', '\r', '\n', '#'] := by
  intro hmem
  simp only [List.mem_cons, List.not_mem_nil, or_false] at hmem
  rcases hmem with rfl | rfl | rfl | rfl | rfl <;> simp [Shape.startsWord] at h

/-- A digit is no blank and starts no comment. -/
theorem not_mem_of_isDigit {c : Char} (h : c.isDigit = true) :
    c ∉ [' ', '\t', '\r', '\n', '#'] := by
  intro hmem
  simp only [List.mem_cons, List.not_mem_nil, or_false] at hmem
  rcases hmem with rfl | rfl | rfl | rfl | rfl <;> simp at h

/-- A word is read as its kind of token. -/
theorem readable_word {word : String} {first : Char} {more : List Char}
    (hword : word.toList = first :: more) (hfirst : Shape.startsWord first = true)
    (hmore : ∀ c ∈ more, Shape.continuesWord c = true)
    (hkind : TokenKind.ofWord word ≠ .newline) : Readable word (.ofWord word) where
  reads := ⟨.word, readsAs_word hword hfirst hmore, rfl⟩
  starts := ⟨first, more, hword, not_mem_of_startsWord hfirst⟩
  notNewline := hkind

/-- Names are identifiers. -/
theorem readable_name {word : String} (h : IsName word) : Readable word .identifier := by
  rcases h with ⟨⟨first, more, hword, hfirst, hmore⟩, hreserved⟩
  have hkind : TokenKind.ofWord word = .identifier := by
    have hnone : TokenKind.ofReserved? word = none := by
      rw [TokenKind.ofReserved?, List.lookup_eq_none_iff]
      intro entry hentry
      have hne : word ≠ entry.1 := by
        rintro rfl
        exact hreserved (List.mem_map_of_mem hentry)
      simpa using hne
    rw [TokenKind.ofWord, hnone]
    rfl
  have hreadable := readable_word hword (by simpa [Shape.startsWord] using hfirst)
    (by simpa [Shape.continuesWord] using hmore) (by simp [hkind])
  rwa [hkind] at hreadable

/-- Written numbers are numbers. -/
theorem readable_number (n : Nat) : Readable (toString n) .number := by
  have hchars : (toString n).toList = Nat.toDigits 10 n := by simp
  have hdigits : ∀ c ∈ (toString n).toList, c.isDigit = true := by
    intro c hc
    rw [hchars] at hc
    exact Nat.isDigit_of_mem_toDigits (by decide) (by decide) hc
  have hne : (toString n).toList ≠ [] := by
    rw [hchars]
    exact Nat.toDigits_ne_nil
  rcases List.exists_cons_of_ne_nil hne with ⟨first, more, hword⟩
  refine ⟨⟨.number, readsAs_number hne hdigits, rfl⟩, ⟨first, more, hword, ?_⟩, by decide⟩
  exact not_mem_of_isDigit (hdigits first (hword ▸ List.mem_cons_self))

/-- Quotations are strings. -/
theorem readable_quotation {word : String} (h : IsQuotation word) : Readable word .string := by
  refine ⟨⟨.string, readsAs_string h, rfl⟩, ?_, by decide⟩
  rcases h with ⟨quote, inside, hquote, -, -, hword⟩
  refine ⟨quote, inside ++ [quote], by simpa using hword, ?_⟩
  rcases hquote with rfl | rfl <;> decide

/-- The reserved words have their kinds. -/
theorem readable_reserved {word : String} {kind : TokenKind}
    (h : (word, kind) ∈ TokenKind.reservedWords) : Readable word kind := by
  have hall : ∀ entry ∈ TokenKind.reservedWords,
      (∃ first more, entry.1.toList = first :: more ∧ Shape.startsWord first = true ∧
        ∀ c ∈ more, Shape.continuesWord c = true) ∧
      TokenKind.ofWord entry.1 = entry.2 ∧ entry.2 ≠ .newline := by
    intro entry hentry
    simp only [TokenKind.reservedWords, List.mem_cons, List.not_mem_nil, or_false] at hentry
    rcases hentry with rfl | rfl | rfl | rfl | rfl | rfl | rfl | rfl | rfl | rfl | rfl | rfl |
      rfl | rfl | rfl | rfl | rfl | rfl | rfl <;>
        exact ⟨⟨_, _, rfl, by decide, List.all_eq_true.mp (by decide)⟩, by decide, by decide⟩
  rcases hall _ h with ⟨⟨first, more, hword, hfirst, hmore⟩, hkind, hnewline⟩
  simp only at hword hkind hnewline
  subst hkind
  exact readable_word hword hfirst hmore hnewline

/-- The marks that stand in expressions and behind them. -/
def marks : List (String × TokenKind) := [
  ("[", .openBracket), ("]", .closeBracket), ("\x7b", .openCurly), ("\x7d", .closeCurly),
  ("(", .openParen), (")", .closeParen), ("==", .equals), ("!=", .notEquals),
  ("<=", .lessEquals), ("<", .less), (">=", .greaterEquals), (">", .greater),
  ("//", .doubleSlash), (".", .dot), (",", .comma), ("+", .plus), ("-", .dash), ("*", .star),
  ("%", .percent), (":", .colon)]

/-- A mark is read as its kind of token. -/
theorem readable_of_mark {word : String} {kind : TokenKind} (hreads : ReadsAs word (.mark kind))
    (hstarts : ∃ first more, word.toList = first :: more ∧
      first ∉ [' ', '\t', '\r', '\n', '#'])
    (hkind : kind ≠ .newline) : Readable word kind :=
  ⟨⟨.mark kind, hreads, rfl⟩, hstarts, hkind⟩

/-- Marks have their kinds. -/
theorem readable_mark {word : String} {kind : TokenKind} (h : (word, kind) ∈ marks) :
    Readable word kind := by
  simp only [marks, List.mem_cons, Prod.mk.injEq, List.not_mem_nil, or_false] at h
  rcases h with ⟨rfl, rfl⟩ | ⟨rfl, rfl⟩ | ⟨rfl, rfl⟩ | ⟨rfl, rfl⟩ | ⟨rfl, rfl⟩ | ⟨rfl, rfl⟩ |
    ⟨rfl, rfl⟩ | ⟨rfl, rfl⟩ | ⟨rfl, rfl⟩ | ⟨rfl, rfl⟩ | ⟨rfl, rfl⟩ | ⟨rfl, rfl⟩ | ⟨rfl, rfl⟩ |
    ⟨rfl, rfl⟩ | ⟨rfl, rfl⟩ | ⟨rfl, rfl⟩ | ⟨rfl, rfl⟩ | ⟨rfl, rfl⟩ | ⟨rfl, rfl⟩ | ⟨rfl, rfl⟩ <;>
      exact readable_of_mark (readsAs_mark rfl (fun _ => rfl) (fun _ => rfl) fun _ => rfl)
        ⟨_, _, rfl, by decide⟩ (by decide)

/-! ## Several words -/

/-- Words that are read as one token each. -/
def AllReadable (words : List String) : Prop := ∀ word ∈ words, ∃ kind, Readable word kind

namespace AllReadable

variable {word : String} {words more : List String} {kind : TokenKind}

/-- No words are readable. -/
theorem nil : AllReadable [] := by
  intro word hword
  nomatch hword

/-- Words in a row are readable if the first one is and the others are. -/
theorem cons (hword : Readable word kind) (hmore : AllReadable more) :
    AllReadable (word :: more) := by
  intro other hother
  rcases List.mem_cons.mp hother with rfl | hmem
  · exact ⟨kind, hword⟩
  · exact hmore other hmem

/-- Two rows of readable words are readable. -/
theorem append (hwords : AllReadable words) (hmore : AllReadable more) :
    AllReadable (words ++ more) := by
  intro other hother
  rcases List.mem_append.mp hother with hmem | hmem
  · exact hwords other hmem
  · exact hmore other hmem

/-- Marks and reserved words are readable. -/
theorem fixed (hword : word ∈ (marks ++ TokenKind.reservedWords).map Prod.fst)
    (hmore : AllReadable more) : AllReadable (word :: more) := by
  rcases List.mem_map.mp hword with ⟨⟨word, kind⟩, hmem, rfl⟩
  rcases List.mem_append.mp hmem with hmark | hreserved
  · exact .cons (readable_mark hmark) hmore
  · exact .cons (readable_reserved hreserved) hmore

end AllReadable
end Offside
