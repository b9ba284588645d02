import Offside.Proofs.Layout.Blocks
import Offside.Proofs.Parsing.Shapes
import Offside.Proofs.Syntax.Contents

/-!
# Contents of parsed trees

Each rule has a content, in which nothing is left of layout.  Where a rule makes a node of some
kind, its content is in the table for this kind.  Only blocks need more than their rule: the rule
of an indented block also derives an empty one, which the tokens of a source never are.

Main definitions:

- `Rule.content`: the content of what a rule derives.
- `Rule.productions`: the nodes that a rule makes, each with the rule of its children.
- `Rule.Makes`: the phrases of a rule are the children of a node of a kind.

Main results:

- Theorem `fits_covers`: phrases that fit a rule are as its content says.
- Theorem `Form.productions_make`: all nodes that the rules of the language make are as the
  table says.
- Theorem `parse_content`: all nodes of the tree of a source are as the table says.
-/

namespace Offside

open Phrase

/-! ## Contents of rules -/

/-- The content of the phrases of a form. -/
def Form.content : Form → Content
  | .primary | .unary | .grouping | .array | .set => .expr
  | .argList => .node .argList
  | .block => .node .body
  | _ => .stmt

/-- A content behind another one, if there is anything in front. -/
def Content.andThen : Content → Content → Content
  | .nothing, second => second
  | first, second => .both first second

/-- The content of what a rule derives. -/
def Rule.content : Rule → Content
  | .nothing | .layout _ => .nothing
  | .leaf accepts kind => .leaf accepts kind
  | .expression _ | .operand _ => .expr
  | .form shape => shape.content
  | .both first second => first.content.andThen second.content
  | .either first second => .either first.content second.content
  | .many rule => .many rule.content
  | .node kind rule => .branch kind rule.content

section Covers

variable {source : Source} {rule : Rule} {tokens rest : List Token} {phrases : List Phrase}

theorem covers_andThen {first second : Content} {before behind : List SyntaxNode}
    (hfirst : first.Covers source before) (hsecond : second.Covers source behind) :
    (first.andThen second).Covers source (before ++ behind) := by
  cases first with
  | nothing =>
    rw [show before = [] from hfirst]
    exact hsecond
  | _ => exact ⟨before, behind, hfirst, hsecond, rfl⟩

/-- A word of a source has the text of its kind there. -/
theorem standsAt_of_writtenIn {token : Token} (h : token.WrittenIn source) :
    token.kind.StandsAt source token.span := by
  intro text hlexeme
  have hstring : token.kind ≠ .string := by
    intro hkind
    rw [hkind] at hlexeme
    cases hlexeme
  rw [← h.lexeme text hlexeme]
  exact (h.covers hstring).slice?_eq

theorem Phrase.IsExpr.isExpr_kind {phrase : Phrase} (h : phrase.IsExpr) :
    phrase.kind.isExpr = true := by
  cases h with
  | @comprehension kind _ _ _ _ _ _ _ isOpening =>
    revert isOpening
    cases kind <;> first | exact fun _ => rfl | exact nofun
  | @filtered kind _ _ _ _ _ _ _ _ _ isOpening =>
    revert isOpening
    cases kind <;> first | exact fun _ => rfl | exact nofun
  | _ => rfl

theorem Phrase.IsStmt.isStmt_kind {phrase : Phrase} (h : phrase.IsStmt) :
    phrase.kind.isStmt = true := by
  cases h with
  | @word kind _ isWord =>
    revert isWord
    cases kind <;> first | exact fun _ => rfl | exact nofun
  | _ => rfl

theorem covers_of_shape {form : Form} {phrase : Phrase} (h : form.shape phrase) :
    form.content.Covers source [phrase.node] := by
  cases form with
  | primary | unary | grouping | array | set => exact ⟨_, Phrase.IsExpr.isExpr_kind h, rfl⟩
  | argList => exact ⟨_, decide_eq_true (Phrase.IsArgList.kind_eq h), rfl⟩
  | block => exact ⟨_, decide_eq_true (Phrase.IsBody.kind_eq h), rfl⟩
  | _ => exact ⟨_, Phrase.IsStmt.isStmt_kind h, rfl⟩

/-- Phrases over words of a source that fit a rule are as its content says. -/
theorem fits_covers (h : rule.Fits shapes tokens phrases rest)
    (hwords : ∀ token ∈ phrases.flatMap words, token.WrittenIn source) :
    rule.content.Covers source (phrases.map node) := by
  induction rule generalizing tokens phrases rest with
  | nothing =>
    rcases h with ⟨rfl, -⟩
    rfl
  | layout =>
    rcases h with ⟨_, -, rfl, -⟩
    rfl
  | leaf accepts kind =>
    rcases h with ⟨token, haccepts, rfl, -⟩
    have hwritten : token.WrittenIn source := hwords token (by simp)
    exact ⟨token.kind, token.span, haccepts, standsAt_of_writtenIn hwritten, rfl⟩
  | expression =>
    rcases h with ⟨phrase, rfl, hexpr, -⟩
    exact ⟨_, Phrase.IsExpr.isExpr_kind hexpr, rfl⟩
  | operand =>
    rcases h with ⟨phrase, rfl, hexpr⟩
    exact ⟨_, Phrase.IsExpr.isExpr_kind hexpr, rfl⟩
  | form form =>
    rcases h with ⟨phrase, rfl, hshape⟩
    exact covers_of_shape hshape
  | both first second ihFirst ihSecond =>
    rcases h with ⟨before, middle, behind, hfirst, hsecond, rfl⟩
    rw [List.flatMap_append, List.forall_mem_append] at hwords
    rw [List.map_append]
    exact covers_andThen (ihFirst hfirst hwords.1) (ihSecond hsecond hwords.2)
  | either first second ihFirst ihSecond =>
    exact h.imp (ihFirst · hwords) (ihSecond · hwords)
  | many rule ih =>
    change Repeats _ _ _ _ at h
    induction h with
    | nil => exact ⟨[], nofun, rfl⟩
    | cons onFirst _ ihMore =>
      rw [List.flatMap_append, List.forall_mem_append] at hwords
      obtain ⟨rows, hrows, hmore⟩ := ihMore hwords.2
      refine ⟨_ :: rows, List.forall_mem_cons.mpr ⟨ih onFirst hwords.1, hrows⟩, ?_⟩
      rw [List.map_append, hmore, List.flatten_cons]
  | node kind rule ih =>
    rcases h with ⟨parts, -, hparts, rfl⟩
    exact ⟨_, rfl, ih hparts (by simpa using hwords), rfl⟩

end Covers

/-! ## The nodes that rules make -/

/-- The nodes that a rule makes, each with the rule of its children. -/
def Rule.productions : Rule → List (SyntaxKind × Rule)
  | .both first second | .either first second => first.productions ++ second.productions
  | .many rule => rule.productions
  | .node kind rule => (kind, rule) :: rule.productions
  | _ => []

/-- The phrases of a rule are the children of a node of a kind, where blocks are filled. -/
def Rule.Makes (kind : SyntaxKind) (rule : Rule) : Prop :=
  ∀ {source tokens rest} {phrases : List Phrase}, rule.Fits shapes tokens phrases rest →
    BlocksFilled tokens → (∀ token ∈ phrases.flatMap words, token.WrittenIn source) →
    kind.Allows source (phrases.map Phrase.node)

section Productions

variable {source : Source} {rule : Rule} {kind : SyntaxKind} {tokens rest : List Token}
  {phrases : List Phrase}

/-- A rule whose content is in the table for a kind makes the children of such a node. -/
theorem makes_of_table (index : Nat) (h : (Content.table kind)[index]? = some rule.content) :
    rule.Makes kind :=
  fun hfits _ hwords => ⟨_, List.mem_of_getElem? h, fits_covers hfits hwords⟩

/-- An indented block with statements: the first one is told apart. -/
def Rule.filledBlock : Rule :=
  row [optional (mark .colon), layout .newline, layout .indent, form .statement,
    many (form .statement), layout .dedent]

/-- The rule of an indented block makes blocks with statements: where there are none, the block
is closed right where it is opened. -/
theorem makes_indentedBlock : (Rule.row [.optional (.mark .colon), .layout .newline,
    .layout .indent, .many (.form .statement), .layout .dedent]).Makes .body := by
  intro source tokens rest phrases hfits hfilled hwords
  suffices hrow : Rule.filledBlock.Fits shapes tokens phrases rest from
    ⟨_, List.mem_of_getElem? (i := 0) rfl, fits_covers hrow hwords⟩
  rcases hfits with ⟨colon, _, _, hcolon, ⟨_, _, _, hnewline, ⟨_, _, _, ⟨opening, hopening, rfl,
    rfl⟩, ⟨statements, _, _, hstatements, hend, rfl⟩, rfl⟩, rfl⟩, rfl⟩
  cases hstatements with
  | nil =>
    rcases hnewline with ⟨newline, -, rfl, rfl⟩
    rcases hend with ⟨_, _, _, ⟨closing, hclosing, rfl, rfl⟩, ⟨rfl, rfl⟩, rfl⟩
    have hrest {more : List Token} : ¬BlocksFilled (opening :: closing :: more) := by
      refine fun hrest => hrest ⟨[], more.map Token.kind, ?_⟩
      simp [hopening, hclosing]
    rcases hcolon with ⟨colon, -, -, rfl⟩ | ⟨-, rfl⟩
    · have hall : BlocksFilled ([colon, newline] ++ opening :: closing :: _) := hfilled
      exact absurd hall.of_append hrest
    · have hall : BlocksFilled ([newline] ++ opening :: closing :: _) := hfilled
      exact absurd hall.of_append hrest
  | cons onFirst onMore =>
    refine ⟨_, _, _, hcolon, ⟨_, _, _, hnewline, ⟨_, _, _, ⟨opening, hopening, rfl, rfl⟩,
      ⟨_, _, _, onFirst, ⟨_, _, _, onMore, hend, rfl⟩, rfl⟩, rfl⟩, rfl⟩, ?_⟩
    simp

/-- So does the rule of a block on one line. -/
theorem makes_lineBlock :
    (Rule.row [.optional (.mark .colon), .form .statement]).Makes .body := by
  rintro source tokens rest phrases ⟨colon, _, _, hcolon, ⟨statement, _, _, hstatement,
    ⟨rfl, rfl⟩, rfl⟩, rfl⟩ - hwords
  have hrow : (Rule.row [.optional (.mark .colon), .form .statement,
      .many (.form .statement)]).Fits shapes tokens (colon ++ (statement ++ [])) _ :=
    ⟨_, _, _, hcolon, ⟨_, _, _, hstatement, ⟨[], _, [], .nil, ⟨rfl, rfl⟩, rfl⟩, rfl⟩, rfl⟩
  exact ⟨_, List.mem_of_getElem? (i := 0) rfl, fits_covers hrow hwords⟩

theorem makes_cons {entry : SyntaxKind × Rule} {entries : List (SyntaxKind × Rule)}
    (hfirst : entry.2.Makes entry.1) (hmore : ∀ entry ∈ entries, entry.2.Makes entry.1) :
    ∀ other ∈ entry :: entries, other.2.Makes other.1 :=
  List.forall_mem_cons.mpr ⟨hfirst, hmore⟩

/-- Every node that a rule of the language makes has children as the table says. -/
theorem Form.productions_make (form : Form) :
    ∀ entry ∈ form.rule.productions, entry.2.Makes entry.1 := by
  have hnone : ∀ entry ∈ ([] : List (SyntaxKind × Rule)), entry.2.Makes entry.1 := nofun
  cases form with
  | primary => exact hnone
  | unary => exact makes_cons (makes_of_table 0 rfl) (makes_cons (makes_of_table 1 rfl) hnone)
  | grouping => exact makes_cons (makes_of_table 0 rfl) (makes_cons (makes_of_table 0 rfl) hnone)
  | array =>
    exact makes_cons (makes_of_table 0 rfl) (makes_cons (makes_of_table 0 rfl)
      (makes_cons (makes_of_table 1 rfl) (makes_cons (makes_of_table 2 rfl) hnone)))
  | set | argList | ifStatement | whileStatement | forStatement | returnStatement
  | classDefinition => exact makes_cons (makes_of_table 0 rfl) hnone
  | statement =>
    exact makes_cons (makes_of_table 0 rfl) (makes_cons (makes_of_table 0 rfl)
      (makes_cons (makes_of_table 1 rfl) (makes_cons (makes_of_table 0 rfl) hnone)))
  | block => exact makes_cons makes_indentedBlock (makes_cons makes_lineBlock hnone)
  | keywordStatement =>
    exact makes_cons (makes_of_table 0 rfl) (makes_cons (makes_of_table 0 rfl)
      (makes_cons (makes_of_table 0 rfl) hnone))
  | functionDefinition =>
    exact makes_cons (makes_of_table 0 rfl) (makes_cons (makes_of_table 0 rfl)
      (makes_cons (makes_of_table 0 rfl) (makes_cons (makes_of_table 1 rfl) hnone)))

/-! ## The nodes that suffixes make -/

variable {left : Phrase} {suffix : Suffix} {power : Power}

/-- The children of a node whose content is an expression and then the content of a rule. -/
theorem allows_of_table (index : Nat)
    (h : (Content.table kind)[index]? = some (.both .expr rule.content)) (hleft : left.IsExpr)
    (hfits : rule.Fits shapes tokens phrases rest)
    (hwords : ∀ token ∈ phrases.flatMap words, token.WrittenIn source) :
    kind.Allows source ((left :: phrases).map Phrase.node) :=
  ⟨_, List.mem_of_getElem? h, [left.node], _, ⟨_, hleft.isExpr_kind, rfl⟩,
    fits_covers hfits hwords, rfl⟩

/-- What a suffix makes of an expression has children as the table says. -/
theorem suffix_allows (hleft : left.IsExpr)
    (hfits : (suffix.rule power).Fits shapes tokens phrases rest)
    (hwords : ∀ token ∈ phrases.flatMap words, token.WrittenIn source) :
    suffix.kind.Allows source ((left :: phrases).map Phrase.node) := by
  cases suffix with
  | binary =>
    have hbinary : ∀ kind, startsSuffix .binary power kind = true → kind.isBinary = true := by
      intro kind hstarts
      have hsuffix := of_decide_eq_true hstarts
      cases kind <;> first | rfl | nomatch hsuffix
    rcases hfits with ⟨_, _, _, ⟨operator, hoperator, rfl, rfl⟩, hright, rfl⟩
    have hrow : (Rule.row [.leaf TokenKind.isBinary .operator, .expression power]).Fits shapes
        (operator :: _) (_ :: _) rest :=
      ⟨_, _, _, ⟨operator, hbinary _ hoperator, rfl, rfl⟩, hright, rfl⟩
    exact allows_of_table 0 rfl hleft hrow hwords
  | conditional => exact allows_of_table 0 rfl hleft hfits hwords
  | call =>
    have hrow : (Rule.row [.form .argList]).Fits shapes tokens phrases rest :=
      ⟨_, _, [], hfits, ⟨rfl, rfl⟩, (List.append_nil _).symm⟩
    exact allows_of_table 0 rfl hleft hrow hwords
  | member => exact allows_of_table 0 rfl hleft hfits hwords
  | index => exact allows_of_table 1 rfl hleft hfits hwords

end Productions

/-! ## Trees -/

section Trees

variable {source : Source} {rule : Rule} {kind : SyntaxKind} {tokens rest : List Token}
  {phrases : List Phrase}

/-- All nodes of a tree have the children that the table asks for. -/
def SyntaxNode.AllHaveContent (source : Source) (tree : SyntaxNode) : Prop :=
  ∀ node ∈ tree.nodes, node.HasContent source

/-- A node over trees that are as the table says is as the table says if its children are. -/
theorem allHaveContent_branch {nodes : List SyntaxNode} {span : Span}
    (hkind : kind.Allows source nodes) (hnodes : ∀ node ∈ nodes, node.AllHaveContent source) :
    SyntaxNode.AllHaveContent source ⟨kind, span, nodes⟩ := by
  intro node hnode
  rcases SyntaxNode.mem_nodes.mp hnode with rfl | ⟨child, hchild, hbelow⟩
  · exact hkind
  · exact hnodes child hchild node hbelow

/-- A leaf has no children. -/
theorem allHaveContent_leaf (hkind : kind.isLeaf = true) (span : Span) :
    (SyntaxNode.leaf kind span).AllHaveContent source := by
  have htable : Content.table kind = [.nothing] := by
    cases kind <;> first | rfl | cases hkind
  refine allHaveContent_branch ⟨.nothing, ?_, rfl⟩ nofun
  rw [htable]
  exact List.mem_singleton_self _

/-- The token list of a source is complete. -/
theorem complete_of_tokenize {source : Source} {tokens : List Token}
    (h : tokenize source = .ok tokens) (stop : Nat) :
    TokenStream.complete tokens stop = tokens := by
  obtain ⟨front, last, rfl, -⟩ := tokenize_ends h
  simp [TokenStream.complete, Token.eof]

/-- What a derivation leaves of tokens with filled blocks has filled blocks. -/
theorem Derives.filled (h : Derives rule tokens phrases rest) (hfilled : BlocksFilled tokens) :
    BlocksFilled rest := by
  obtain ⟨read, rfl, -, -⟩ := h.consumes
  exact hfilled.of_append

/-- What a rule derives from tokens of a source is as the table says, if what the rule makes
is. -/
theorem Derives.allHaveContent (h : Derives rule tokens phrases rest)
    (hrule : ∀ entry ∈ rule.productions, entry.2.Makes entry.1) (hfilled : BlocksFilled tokens)
    (hwords : ∀ token ∈ phrases.flatMap words, token.WrittenIn source) :
    ∀ phrase ∈ phrases, phrase.node.AllHaveContent source := by
  induction h with
  | nothing | layout | manyNil => exact nofun
  | leaf _ _ isLeaf => exact List.forall_mem_singleton.mpr (allHaveContent_leaf isLeaf _)
  | both onFirst _ ihFirst ihSecond =>
    rw [Rule.productions, List.forall_mem_append] at hrule
    rw [List.flatMap_append, List.forall_mem_append] at hwords
    exact List.forall_mem_append.mpr ⟨ihFirst hrule.1 hfilled hwords.1,
      ihSecond hrule.2 (onFirst.filled hfilled) hwords.2⟩
  | manyCons onFirst _ ihFirst ihMore =>
    rw [List.flatMap_append, List.forall_mem_append] at hwords
    exact List.forall_mem_append.mpr ⟨ihFirst hrule hfilled hwords.1,
      ihMore hrule (onFirst.filled hfilled) hwords.2⟩
  | eitherLeft _ ih =>
    rw [Rule.productions, List.forall_mem_append] at hrule
    exact ih hrule.1 hfilled hwords
  | eitherRight _ ih =>
    rw [Rule.productions, List.forall_mem_append] at hrule
    exact ih hrule.2 hfilled hwords
  | node _ onRule ih =>
    rw [Rule.productions, List.forall_mem_cons] at hrule
    rw [List.flatMap_singleton, words_group] at hwords
    have hallows := hrule.1 (onRule.fits shapes_kept) hfilled hwords
    refine List.forall_mem_singleton.mpr (allHaveContent_branch hallows ?_)
    exact List.forall_mem_map.mpr (ih hrule.2 hfilled hwords)
  | @form form _ _ _ _ ih => exact ih form.productions_make hfilled hwords
  | start _ _ ih | expression _ _ ih => exact ih nofun hfilled hwords
  | @extend _ _ left _ power suffix _ _ onLeft _ _ onSuffix ihLeft ihSuffix =>
    have hnone : ∀ entry ∈ (suffix.rule power).productions, entry.2.Makes entry.1 := by
      cases suffix <;> exact nofun
    rw [List.flatMap_singleton, words_group, List.flatMap_cons, List.forall_mem_append] at hwords
    obtain ⟨_, heq, hexpr⟩ := onLeft.fits shapes_kept
    cases heq
    have hallows := suffix_allows hexpr (onSuffix.fits shapes_kept) hwords.2
    refine List.forall_mem_singleton.mpr (allHaveContent_branch hallows ?_)
    refine List.forall_mem_map.mpr (List.forall_mem_cons.mpr ⟨?_, ?_⟩)
    · exact ihLeft nofun hfilled (by simpa using hwords.1) left List.mem_cons_self
    · exact ihSuffix hnone (onLeft.filled hfilled) hwords.2

/-- The children of all nodes of the tree of a source are as the table says. -/
theorem allHaveContent_of_parse {source : Source} {tokens : List Token} {tree : SyntaxNode}
    (htokens : tokenize source = .ok tokens) (hparse : parse tokens source = .ok tree) :
    tree.AllHaveContent source := by
  obtain ⟨phrases, rest, rfl, hderives, hend⟩ := parse_derives hparse
  rw [complete_of_tokenize htokens] at hderives
  have hwords : ∀ token ∈ phrases.flatMap words, token.WrittenIn source := by
    rw [← wordsOf_eq hderives.consumes hend]
    exact tokenize_written htokens
  have hscript : SyntaxKind.script.Allows source (phrases.map Phrase.node) :=
    ⟨_, List.mem_of_getElem? (i := 0) rfl, fits_covers (hderives.fits shapes_kept) hwords⟩
  have hstatements :=
    hderives.allHaveContent (List.forall_mem_nil _) (tokenize_blocksFilled htokens) hwords
  exact allHaveContent_branch hscript (List.forall_mem_map.mpr hstatements)

/-- Every node of the tree of a source has the children that the table asks for, in order; and the
root is a script. -/
theorem parse_content {source : Source} {tokens : List Token} {tree : SyntaxNode}
    (htokens : tokenize source = .ok tokens) (hparse : parse tokens source = .ok tree) :
    tree.kind = .script ∧ ∀ node ∈ tree.nodes, node.HasContent source :=
  ⟨(parse_root hparse).1, allHaveContent_of_parse htokens hparse⟩

/-- A conditional statement on a list with a comma at its end, whose block is a slice of a call. -/
theorem parse_content_slice :
    ∃ tokens tree, tokenize "if [a,]:\n  f(b,)[c:]\nelse: pass".toList = .ok tokens ∧
      parse tokens "if [a,]:\n  f(b,)[c:]\nelse: pass".toList = .ok tree ∧
      tree.kind = .script ∧
      ∀ node ∈ tree.nodes, node.HasContent "if [a,]:\n  f(b,)[c:]\nelse: pass".toList := by
  have hparses : ((tokenize "if [a,]:\n  f(b,)[c:]\nelse: pass".toList).bind fun tokens =>
      parse tokens "if [a,]:\n  f(b,)[c:]\nelse: pass".toList).isOk = true := by
    decide +kernel
  cases htokens : tokenize "if [a,]:\n  f(b,)[c:]\nelse: pass".toList with
  | error failure =>
    rw [htokens] at hparses
    cases hparses
  | ok tokens =>
    rw [htokens] at hparses
    cases hparse : parse tokens "if [a,]:\n  f(b,)[c:]\nelse: pass".toList with
    | error failure =>
      rw [Except.bind, hparse] at hparses
      cases hparses
    | ok tree => exact ⟨tokens, tree, rfl, hparse, parse_content htokens hparse⟩

end Trees
end Offside
