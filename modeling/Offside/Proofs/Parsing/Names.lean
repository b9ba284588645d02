import Offside.Proofs.Layout.Positions
import Offside.Proofs.Parsing.Leaves
import Offside.Proofs.Writing.Spelling

/-!
# Names in a tree

The identifiers among the tokens of a source are names, and so are the texts of all leaves of a tree
that stand for names: the rules make such a leaf of an identifier only.

Main definitions:

- `Scanner.Names`: all identifiers so far are names.
- `Rule.NamesIdentifiers`: a rule makes the leaf of a name of identifiers only.
- `Phrase.NamesWords`: the leaves of names in a phrase stand for identifiers among its words.

Main results:

- Theorem `tokenize_names`: the identifiers of a source are names.
- Theorem `parse_names`: the leaf of a name stands for a name.
-/

namespace Offside

/-! ## Names in a source -/

/-- A word that is no reserved one is a name. -/
theorem isName_of_first? {source text rest : Source}
    (h : Pattern.first? source = some (.word, text, rest))
    (hkind : TokenKind.ofWord (String.ofList text) = .identifier) :
    IsName (String.ofList text) := by
  obtain ⟨⟨shape, role⟩, hmem, rfl, hsplit⟩ := exists_pattern h
  have hword : ∀ pattern ∈ Pattern.table, pattern.role = .word → pattern.shape = .word := by
    decide
  cases hword _ hmem rfl
  cases source with
  | nil => nomatch hsplit
  | cons first more =>
    simp only [Shape.split?] at hsplit
    split at hsplit
    · next hfirst =>
      cases hsplit
      refine ⟨⟨first, _, String.toList_ofList, ?_, ?_⟩, ?_⟩
      · simpa [Shape.startsWord] using hfirst
      · intro c hc
        simpa [Shape.continuesWord] using List.all_eq_true.mp List.all_takeWhile c hc
      · intro hreserved
        have hne : ∀ entry ∈ TokenKind.reservedWords, TokenKind.ofWord entry.1 ≠ .identifier := by
          decide
        obtain ⟨entry, hentry, heq⟩ := List.mem_map.mp hreserved
        exact hne entry hentry (heq ▸ hkind)
    · cases hsplit

namespace Scanner

variable {source text rest : Source} {role : Role} {s t : Scanner}

/-- All identifiers so far are names. -/
def Names (s : Scanner) : Prop := ∀ token ∈ s.tokens, token.kind = .identifier → IsName token.text

/-- A token may be added if an identifier among tokens is a name. -/
theorem Names.push {token : Token} (h : s.Names)
    (htoken : token.kind = .identifier → IsName token.text) : (s.push token).Names :=
  List.forall_mem_cons.mpr ⟨htoken, h⟩

/-- The layout at the start of a line is no name. -/
theorem Names.startLine (h : s.Names) (haligned : s.Aligned source)
    (hline : s.startLine source = .ok t) : t.Names := by
  obtain ⟨added, htokens, hadded⟩ := tokens_of_startLine haligned hline
  rw [Names, htokens, List.forall_mem_append]
  refine ⟨fun token htoken hkind => ?_, h⟩
  have hlayout := (hadded token htoken).1
  rw [hkind] at hlayout
  nomatch hlayout

/-- What is read as an identifier is a name. -/
theorem Names.read (h : s.Names) (hfirst : Pattern.first? s.rest = some (role, text, rest)) :
    (s.read role text rest).Names := by
  cases role with
  | word => exact Names.push h (isName_of_first? hfirst)
  | number | string => exact Names.push h nofun
  | skipped => exact h
  | mark kind =>
    refine Names.push h fun hkind => ?_
    have hlexeme := lexeme?_of_first?_mark hfirst
    rw [show kind = .identifier from hkind] at hlexeme
    nomatch hlexeme
  | lineBreak =>
    simp only [Names, Scanner.read, emit, endLine]
    split
    · split
      · exact h
      · exact h
      · refine Names.push h fun hkind => ?_
        cases hkind
    · exact h

/-- All identifiers of a run are names. -/
theorem Names.run {fuel : Nat} (h : s.Names) (haligned : s.Aligned source)
    (hrun : Scanner.run source fuel s = .ok t) : t.Names := by
  refine (run_keeps (P := fun s => s.Names ∧ s.Aligned source) ?_ ?_ ⟨h, haligned⟩ hrun).1
  · rintro s t ⟨hnames, haligned⟩ - hline
    exact ⟨hnames.startLine haligned hline, haligned.startLine hline⟩
  · rintro s role text rest ⟨hnames, haligned⟩ - hfirst
    exact ⟨hnames.read hfirst, aligned_read haligned hfirst⟩

end Scanner

/-- The identifiers of a source are names. -/
theorem tokenize_names {source : Source} {tokens : List Token}
    (h : tokenize source = .ok tokens) :
    ∀ token ∈ tokens, token.kind = .identifier → IsName token.text := by
  unfold tokenize at h
  cases hrun : Scanner.run source source.length (.start source) with
  | error failure =>
    rw [hrun] at h
    nomatch h
  | ok last =>
    rw [hrun] at h
    cases h
    have hnames : last.Names := Scanner.Names.run (s := .start source) nofun ⟨[], rfl, rfl⟩ hrun
    rw [Scanner.finish_eq]
    intro token hmem hkind
    simp only [List.mem_append, List.mem_reverse, List.mem_map, List.mem_singleton] at hmem
    rcases hmem with ((hread | hline) | ⟨-, -, rfl⟩) | rfl
    · exact hnames token hread hkind
    · split at hline
      · nomatch hline
      · rw [List.mem_singleton.mp hline] at hkind
        nomatch hkind
    · nomatch hkind
    · nomatch hkind

/-! ## Names in a tree -/

/-- A rule makes the leaf of a name of identifiers only. -/
def Rule.NamesIdentifiers : Rule → Prop
  | .leaf accepts kind => kind = .variableName → ∀ word, accepts word = true → word = .identifier
  | .both first second | .either first second =>
    first.NamesIdentifiers ∧ second.NamesIdentifiers
  | .many rule | .node _ rule => rule.NamesIdentifiers
  | .nothing | .layout _ | .expression _ | .operand _ | .form _ => True

/-- All forms name identifiers alone. -/
theorem Form.namesIdentifiers (form : Form) : form.rule.NamesIdentifiers := by
  cases form <;>
    simp [Form.rule, Rule.row, Rule.oneOf, Rule.optional, Rule.mark, Rule.word, Rule.name,
      Rule.comprehension, Rule.typeDef, Rule.elsePart, Rule.simpleStatement, Rule.wordStatement,
      Rule.statements, Rule.element, Rule.parameter, Rule.NamesIdentifiers]

/-- So do all suffixes. -/
theorem Suffix.namesIdentifiers (suffix : Suffix) (power : Power) :
    (suffix.rule power).NamesIdentifiers := by
  cases suffix <;>
    simp [Suffix.rule, Rule.row, Rule.oneOf, Rule.mark, Rule.word, Rule.NamesIdentifiers]

/-- The leaves of names in a phrase stand for identifiers among its words. -/
def Phrase.NamesWords (phrase : Phrase) : Prop :=
  ∀ node ∈ phrase.node.nodes, node.kind = .variableName →
    ∃ token ∈ phrase.words, token.kind = .identifier ∧ token.span = node.span

namespace Phrase

/-- A single token is a name if it is an identifier. -/
theorem namesWords_ofToken {kind : SyntaxKind} {token : Token}
    (h : kind = .variableName → token.kind = .identifier) : (ofToken kind token).NamesWords := by
  intro node hnode hkind
  obtain rfl : node = .leaf kind token.span := by simpa [ofToken, SyntaxNode.leaf,
    SyntaxNode.nodes, SyntaxNode.nodesOf] using hnode
  exact ⟨token, List.mem_singleton_self token, h hkind, rfl⟩

/-- The names in a phrase are those in its parts. -/
theorem namesWords_group {kind : SyntaxKind} {phrases : List Phrase}
    (hkind : kind.isLeaf = false) (h : ∀ phrase ∈ phrases, phrase.NamesWords) :
    (group kind phrases).NamesWords := by
  intro node hnode hname
  rcases SyntaxNode.mem_nodes.mp hnode with rfl | ⟨child, hchild, hbelow⟩
  · have hgroup : kind = .variableName := hname
    rw [hgroup] at hkind
    nomatch hkind
  · obtain ⟨phrase, hphrase, rfl⟩ := List.mem_map.mp hchild
    obtain ⟨token, htoken, hidentifier⟩ := h phrase hphrase node hbelow hname
    exact ⟨token, List.mem_flatMap.mpr ⟨phrase, hphrase, htoken⟩, hidentifier⟩

end Phrase

/-- In derived phrases, the leaves of names stand for identifiers. -/
theorem Derives.namesWords {rule : Rule} {tokens rest : List Token} {phrases : List Phrase}
    (h : Derives rule tokens phrases rest) (hrule : rule.NamesIdentifiers) :
    ∀ phrase ∈ phrases, phrase.NamesWords := by
  induction h with
  | nothing | layout | manyNil => exact nofun
  | leaf accepted _ _ =>
    exact List.forall_mem_singleton.mpr
      (Phrase.namesWords_ofToken fun hkind => hrule hkind _ accepted)
  | both _ _ ihFirst ihSecond =>
    exact List.forall_mem_append.mpr ⟨ihFirst hrule.1, ihSecond hrule.2⟩
  | manyCons _ _ ihFirst ihMore => exact List.forall_mem_append.mpr ⟨ihFirst hrule, ihMore hrule⟩
  | eitherLeft _ ih => exact ih hrule.1
  | eitherRight _ ih => exact ih hrule.2
  | node isLeaf _ ih =>
    exact List.forall_mem_singleton.mpr (Phrase.namesWords_group isLeaf (ih hrule))
  | @form form _ _ _ _ ih => exact ih form.namesIdentifiers
  | start _ _ ih | expression _ _ ih => exact ih trivial
  | @extend _ _ _ _ power suffix _ _ _ _ _ _ ihLeft ihSuffix =>
    have hparts := List.forall_mem_cons.mpr ⟨ihLeft trivial _ List.mem_cons_self,
      ihSuffix (suffix.namesIdentifiers power)⟩
    exact List.forall_mem_singleton.mpr (Phrase.namesWords_group (isLeaf_suffix suffix) hparts)

/-- In the tree of a source, the leaf of a name stands for a name. -/
theorem parse_names {source : Source} {tokens : List Token} {tree node : SyntaxNode}
    (htokens : tokenize source = .ok tokens) (hparse : parse tokens source = .ok tree)
    (hnode : node ∈ tree.nodes) (hkind : node.kind = .variableName) :
    ∃ token ∈ wordsOf tokens, token.kind = .identifier ∧ token.span = node.span ∧
      IsName token.text := by
  obtain ⟨hscript, phrases, start, rest, hchildren, hwords, hderives⟩ := parse_root hparse
  rcases SyntaxNode.mem_nodes.mp hnode with rfl | ⟨child, hchild, hbelow⟩
  · rw [hscript] at hkind
    nomatch hkind
  · rw [hchildren] at hchild
    obtain ⟨phrase, hphrase, rfl⟩ := List.mem_map.mp hchild
    obtain ⟨token, htoken, hidentifier, hspan⟩ :=
      hderives.namesWords trivial phrase hphrase node hbelow hkind
    have hmem : token ∈ wordsOf tokens := by
      rw [hwords]
      exact List.mem_flatMap.mpr ⟨phrase, hphrase, htoken⟩
    exact ⟨token, hmem, hidentifier, hspan,
      tokenize_names htokens token (mem_of_mem_wordsOf hmem).1 hidentifier⟩

end Offside
