import Offside.Proofs.Parsing.Rules
import Offside.Proofs.Writing.Streams

/-!
# Readers follow the rules

Whatever a reader of phrases reads, its rule derives from the tokens read.  There is one lemma
for each form of phrase, about the reader of this form over any reader of smaller phrases that
follows the rules; together they say that all phrases are read by their rules.

Main definitions:

- `TokenStream.Closed`: a stream that ends with the end of the file.
- `Gives`: a rule derives nodes from the tokens between two streams.
- `Follows`: a reader of phrases follows the rules.

Main results:

- Theorem `readWithin_follows`: the reader of the language follows the rules.
- Theorem `parse_derives`: statements derive the tree of a token list that is parsed.
-/

namespace Offside

open Offside.Parser Parse

/-! ## Streams -/

/-- The last token of a stream is the end of the file. -/
def TokenStream.Closed (stream : TokenStream) : Prop :=
  stream.toList.getLast?.map Token.kind = some .eof

namespace TokenStream

variable {stream : TokenStream}

/-- Before the end of the file there is a next token. -/
theorem Closed.toList_eq (h : stream.Closed) (hkind : stream.current.kind ≠ .eof) :
    stream.toList = stream.current :: stream.next.toList ∧ stream.next.Closed := by
  rcases stream with ⟨current, _ | ⟨token, rest⟩⟩
  · simp_all [Closed, toList]
  · refine ⟨rfl, ?_⟩
    simpa [Closed, toList, next] using h

end TokenStream

/-! ## What readers give -/

/-- A rule derives phrases over some nodes from the tokens between two streams. -/
def Gives (rule : Rule) (stream : TokenStream) (nodes : List SyntaxNode) (after : TokenStream) :
    Prop :=
  ∃ phrases, phrases.map Phrase.node = nodes ∧ Derives rule stream.toList phrases after.toList ∧
    after.Closed

namespace Gives

variable {rule first second : Rule} {stream middle after : TokenStream}
  {nodes more : List SyntaxNode} {whole left : SyntaxNode}

/-- What is left of a stream ends with the end of the file too. -/
theorem closed (h : Gives rule stream nodes after) : after.Closed := by
  rcases h with ⟨phrases, -, -, hclosed⟩
  exact hclosed

/-- Where nothing is asked for, nothing is taken. -/
theorem nothing (h : stream.Closed) : Gives .nothing stream [] stream := ⟨[], rfl, .nothing, h⟩

/-- Of two rules in a row, the second derives from where the first has ended. -/
theorem both (hfirst : Gives first stream nodes middle) (hsecond : Gives second middle more after) :
    Gives (.both first second) stream (nodes ++ more) after := by
  rcases hfirst with ⟨phrases, rfl, hfirst, -⟩
  rcases hsecond with ⟨others, rfl, hsecond, hclosed⟩
  exact ⟨phrases ++ others, List.map_append, .both hfirst hsecond, hclosed⟩

/-- In a longer row the first rule derives first. -/
theorem cons {rules : List Rule} (hfirst : Gives rule stream nodes middle)
    (hmore : Gives (Rule.row rules) middle more after) :
    Gives (Rule.row (rule :: rules)) stream (nodes ++ more) after := hfirst.both hmore

/-- The last of several rules in a row. -/
theorem last (h : Gives rule stream nodes after) : Gives (Rule.row [rule]) stream nodes after := by
  simpa [Rule.row] using h.both (.nothing h.closed)

/-- Of several rules one derives. -/
theorem oneOf {rules : List Rule} (index : Nat) (hrule : rules[index]? = some rule)
    (h : Gives rule stream nodes after) : Gives (Rule.oneOf rules) stream nodes after := by
  rcases h with ⟨phrases, hnodes, hderives, hclosed⟩
  exact ⟨phrases, hnodes, .oneOf (List.mem_of_getElem? hrule) hderives, hclosed⟩

/-- A part that may be left out may stand there. -/
theorem optional (h : Gives rule stream nodes after) :
    Gives (.optional rule) stream nodes after := by
  rcases h with ⟨phrases, hnodes, hderives, hclosed⟩
  exact ⟨phrases, hnodes, .eitherLeft hderives, hclosed⟩

/-- It may be left out, too. -/
theorem skipped (h : stream.Closed) : Gives (.optional rule) stream [] stream :=
  ⟨[], rfl, .eitherRight .nothing, h⟩

/-- A repetition may have no round. -/
theorem manyNil (h : stream.Closed) : Gives (.many rule) stream [] stream :=
  ⟨[], rfl, .manyNil, h⟩

/-- It may have one round, and then more of them. -/
theorem manyCons (hfirst : Gives rule stream nodes middle)
    (hmore : Gives (.many rule) middle more after) :
    Gives (.many rule) stream (nodes ++ more) after := by
  rcases hfirst with ⟨phrases, rfl, hfirst, -⟩
  rcases hmore with ⟨others, rfl, hmore, hclosed⟩
  exact ⟨phrases ++ others, List.map_append, .manyCons hfirst hmore, hclosed⟩

/-- The nodes that are derived may be written differently. -/
theorem of_eq (h : Gives rule stream nodes after) (hnodes : nodes = more) :
    Gives rule stream more after := hnodes ▸ h

/-- The node of a kind is made of what its rule derives. -/
theorem node {kind : SyntaxKind} {children : List SyntaxNode} (hkind : kind.isLeaf = false)
    (h : Gives rule stream nodes after) (hnodes : nodes = children) :
    Gives (.node kind rule) stream [.branch kind children] after := by
  rcases h with ⟨phrases, rfl, hderives, hclosed⟩
  subst hnodes
  exact ⟨[.group kind phrases], rfl, .node hkind hderives, hclosed⟩

/-- A form derives what its rule does. -/
theorem form {form : Form} (h : Gives form.rule stream nodes after) :
    Gives (.form form) stream nodes after := by
  rcases h with ⟨phrases, hnodes, hderives, hclosed⟩
  exact ⟨phrases, hnodes, .form hderives, hclosed⟩

/-- An operand starts with the form that its first token tells. -/
theorem start {form : Form} {above : Power}
    (hstarts : Grammar.standard.expression stream.current.kind = some form)
    (h : Gives (.form form) stream [whole] after) :
    Gives (.operand above) stream [whole] after := by
  rcases h with ⟨phrases, hnodes, hderives, hclosed⟩
  rcases List.map_eq_singleton_iff.mp hnodes with ⟨phrase, rfl, hphrase⟩
  exact ⟨[phrase], hnodes, .start hstarts hderives, hclosed⟩

/-- A suffix that binds tightly enough goes on with the operand before it. -/
theorem extend {above power : Power} {suffix : Suffix}
    (hleft : Gives (.operand above) stream [left] middle)
    (hstarts : Grammar.standard.suffix middle.current.kind = some (power, suffix))
    (hbinds : above.rank < power.rank) (h : Gives (suffix.rule power) middle nodes after) :
    Gives (.operand above) stream [.branch suffix.kind (left :: nodes)] after := by
  rcases hleft with ⟨phrases, hnodes, hderives, -⟩
  rcases List.map_eq_singleton_iff.mp hnodes with ⟨phrase, rfl, rfl⟩
  rcases h with ⟨others, rfl, hsuffix, hclosed⟩
  exact ⟨[.group suffix.kind (phrase :: others)], rfl, .extend hderives hstarts hbinds hsuffix,
    hclosed⟩

/-- An expression ends in front of what binds no tighter than it may. -/
theorem expression {above : Power} (h : Gives (.operand above) stream [whole] after)
    (hstops : (Grammar.standard.power after.current.kind).rank ≤ above.rank) :
    Gives (.expression above) stream [whole] after := by
  rcases h with ⟨phrases, hnodes, hderives, hclosed⟩
  rcases List.map_eq_singleton_iff.mp hnodes with ⟨phrase, rfl, hphrase⟩
  exact ⟨[phrase], hnodes, .expression hderives hstops, hclosed⟩

end Gives

/-! ## Tokens -/

section Tokens

variable {α : Type} {p : Parser} {stream : TokenStream} {kind : TokenKind}
  {leafKind : SyntaxKind} {post : α → TokenStream → Prop} {reason : String}

/-- A refusal promises everything. -/
theorem unexpected_onSuccess : OnSuccess p.unexpected stream post := by
  unfold OnSuccess Meets unexpected Outcome.refuseAt
  cases Source.location? p.source stream.current.span.start <;> trivial

/-- A refusal with a reason has no success of which something is asked. -/
theorem unexpectedBecause_onSuccess : OnSuccess (p.unexpectedBecause reason) stream post := by
  unfold OnSuccess Meets unexpectedBecause Outcome.refuseAt
  cases Source.location? p.source stream.current.span.start <;> trivial

/-- A program that looks at the kind of the current token. -/
theorem currentKind_onSuccess {next : TokenKind → Parse α}
    (h : OnSuccess (next stream.current.kind) stream post) :
    OnSuccess (currentKind >>= next) stream post :=
  .bind_runs rfl h

/-- A token that can be seen is read as a leaf. -/
theorem gives_leaf {accepts : TokenKind → Bool} (hstream : stream.Closed)
    (haccepts : accepts stream.current.kind = true)
    (hvisible : stream.current.kind.isVisible = true) (hleaf : leafKind.isLeaf = true) :
    Gives (.leaf accepts leafKind) stream [.leaf leafKind stream.current.span] stream.next := by
  have heof : stream.current.kind ≠ .eof := by
    intro heof
    rw [heof] at hvisible
    cases hvisible
  obtain ⟨htokens, hclosed⟩ := hstream.toList_eq heof
  refine ⟨[.ofToken leafKind stream.current], rfl, ?_, hclosed⟩
  rw [htokens]
  exact .leaf haccepts hvisible hleaf

/-- The current token becomes a leaf, if it is one of those accepted. -/
theorem leaf_gives {accepts : TokenKind → Bool} (hstream : stream.Closed)
    (haccepts : accepts stream.current.kind = true)
    (hvisible : stream.current.kind.isVisible = true) (hleaf : leafKind.isLeaf = true) :
    OnSuccess (Parse.leaf leafKind) stream fun node =>
      Gives (.leaf accepts leafKind) stream [node] :=
  .runs rfl (gives_leaf hstream haccepts hvisible hleaf)

/-- A token of a known kind as a leaf. -/
theorem leafOf_gives (hstream : stream.Closed) (hkind : stream.current.kind = kind)
    (hvisible : kind.isVisible = true) (hleaf : leafKind.isLeaf = true) :
    OnSuccess (Parse.leaf leafKind) stream fun node =>
      Gives (.leaf (· = kind) leafKind) stream [node] := by
  subst hkind
  exact leaf_gives hstream (decide_eq_true rfl) hvisible hleaf

/-- Only the expected kind of token is passed. -/
theorem expect_onSuccess {post : Token → TokenStream → Prop}
    (h : stream.current.kind = kind → post stream.current stream.next) :
    OnSuccess (p.expect kind) stream post := by
  apply currentKind_onSuccess
  split
  · next hkind => exact .runs rfl (h hkind)
  · exact unexpected_onSuccess

/-- The expected token becomes a leaf. -/
theorem expectLeaf_gives (hstream : stream.Closed) (hvisible : kind.isVisible = true)
    (hleaf : leafKind.isLeaf = true) :
    OnSuccess (p.expectLeaf kind leafKind) stream fun node =>
      Gives (.leaf (· = kind) leafKind) stream [node] := by
  have hexpect : OnSuccess (p.expect kind) stream fun token =>
      Gives (.leaf (· = kind) leafKind) stream [.leaf leafKind token.span] := by
    apply expect_onSuccess
    rintro rfl
    exact gives_leaf hstream (decide_eq_true rfl) hvisible hleaf
  apply Meets.bind hexpect
  intro token after h
  exact .pure h

/-- A token of layout is read without a trace. -/
theorem gives_layout (hstream : stream.Closed) (hlayout : kind.isLayout = true)
    (hkind : stream.current.kind = kind) : Gives (.layout kind) stream [] stream.next := by
  have heof : stream.current.kind ≠ .eof := by
    intro heof
    rw [← hkind, heof] at hlayout
    cases hlayout
  obtain ⟨htokens, hclosed⟩ := hstream.toList_eq heof
  refine ⟨[], rfl, ?_, hclosed⟩
  rw [htokens]
  exact .layout hkind hlayout

/-- Expected layout leaves no leaf. -/
theorem expectLayout_gives (hstream : stream.Closed) (hlayout : kind.isLayout = true) :
    OnSuccess (p.expect kind) stream fun _ => Gives (.layout kind) stream [] :=
  expect_onSuccess (gives_layout hstream hlayout)

end Tokens

/-! ## Parts -/

section Parts

variable {stream : TokenStream} {passes : TokenKind → Bool} {reader : Parse SyntaxNode}
  {item : Parse (List SyntaxNode)} (rule : Rule)

/-- One phrase in a row. -/
theorem single_gives {rule : Rule}
    (h : OnSuccess reader stream fun node => Gives rule stream [node]) :
    OnSuccess (do return [← reader]) stream (Gives rule stream) :=
  .bind h fun _ _ hnode => .pure hnode

/-- Something is read or left out as the current token says. -/
theorem optionally_onSuccess (post : List SyntaxNode → TokenStream → Prop)
    (hitem : passes stream.current.kind = true → OnSuccess item stream post)
    (hskipped : passes stream.current.kind = false → post [] stream) :
    OnSuccess (optionally passes item) stream post := by
  apply currentKind_onSuccess
  split
  · next hpasses => exact hitem hpasses
  · next hpasses => exact .pure (hskipped (Bool.eq_false_iff.mpr hpasses))

/-- A part is read if its first token is there, and else left out. -/
theorem optionally_gives (hstream : stream.Closed)
    (hitem : passes stream.current.kind = true → OnSuccess item stream (Gives rule stream)) :
    OnSuccess (optionally passes item) stream (Gives (.optional rule) stream) :=
  optionally_onSuccess _ (fun hpasses => (hitem hpasses).mono fun _ _ h => h.optional)
    fun _ => .skipped hstream

/-- A mark that may be missing. -/
theorem optionalMark_gives {kind : TokenKind} (hstream : stream.Closed)
    (hvisible : kind.isVisible = true) :
    OnSuccess (optionally (· = kind) do return [← leaf .punctuation]) stream
      (Gives (.optional (.mark kind)) stream) := by
  apply optionally_gives _ hstream
  intro hkind
  exact single_gives (leafOf_gives hstream (of_decide_eq_true hkind) hvisible rfl)

/-- A repetition stops at a token that does not pass. -/
theorem rounds_gives {limit : Nat} (hstream : stream.Closed)
    (hitem : ∀ stream : TokenStream, stream.Closed → passes stream.current.kind = true →
      OnSuccess item stream (Gives rule stream)) :
    OnSuccess (rounds passes item limit) stream fun nodes after =>
      Gives (.many rule) stream nodes after ∧ passes after.current.kind = false := by
  induction limit generalizing stream with
  | zero =>
    -- With no round left, a token that passes is a failure, of which nothing is promised.
    apply currentKind_onSuccess
    split
    · exact .throw trivial
    · next hpasses => exact .pure ⟨.manyNil hstream, Bool.eq_false_iff.mpr hpasses⟩
  | succ limit ih =>
    apply currentKind_onSuccess
    split
    · next hpasses =>
      apply Meets.bind (hitem stream hstream hpasses)
      intro first middle hfirst
      apply Meets.bind (ih hfirst.closed)
      rintro more after ⟨hmore, hstop⟩
      exact .pure ⟨hfirst.manyCons hmore, hstop⟩
    · next hpasses => exact .pure ⟨.manyNil hstream, Bool.eq_false_iff.mpr hpasses⟩

/-- A repetition whose last round may be of another kind, behind which no token passes. -/
theorem rounds_endsWith {last : Rule} {ending : TokenKind} {limit : Nat}
    (hending : passes ending = false) (hstream : stream.Closed)
    (hitem : ∀ stream : TokenStream, stream.Closed → passes stream.current.kind = true →
      OnSuccess item stream fun nodes after => Gives rule stream nodes after ∨
        Gives last stream nodes after ∧ after.current.kind = ending) :
    OnSuccess (rounds passes item limit) stream fun nodes after =>
      Gives (.many rule) stream nodes after ∨ ∃ before middle behind, nodes = before ++ behind ∧
        Gives (.many rule) stream before middle ∧ Gives last middle behind after ∧
          after.current.kind = ending := by
  induction limit generalizing stream with
  | zero =>
    apply currentKind_onSuccess
    split
    · exact .throw trivial
    · exact .pure (.inl (.manyNil hstream))
  | succ limit ih =>
    apply currentKind_onSuccess
    split
    · next hpasses =>
      apply Meets.bind (hitem stream hstream hpasses)
      rintro first middle (hfirst | ⟨hlast, hmiddle⟩)
      · apply Meets.bind (ih hfirst.closed)
        rintro more after (hmore | ⟨before, middle, behind, rfl, hbefore, hbehind, hafter⟩)
        · exact .pure (.inl (hfirst.manyCons hmore))
        · exact .pure (.inr ⟨_, _, _, (List.append_assoc ..).symm, hfirst.manyCons hbefore,
            hbehind, hafter⟩)
      · have hstops : passes middle.current.kind = false := hmiddle ▸ hending
        refine .bind_runs (.rounds_nil hstops limit) (.pure (.inr ?_))
        exact ⟨[], stream, first, List.append_nil first, .manyNil hstream, hlast, hmiddle⟩
    · exact .pure (.inl (.manyNil hstream))

/-- Rounds are read as long as their first tokens are there. -/
theorem repeatWhile_gives (hstream : stream.Closed)
    (hitem : ∀ stream : TokenStream, stream.Closed → passes stream.current.kind = true →
      OnSuccess item stream (Gives rule stream)) :
    OnSuccess (repeatWhile passes item) stream fun nodes after =>
      Gives (.many rule) stream nodes after ∧ passes after.current.kind = false :=
  rounds_gives rule hstream hitem

end Parts

/-! ## Readers of smaller phrases -/

/-- The tokens that a phrase of a form may start with, where that is known before it is
read. -/
def Form.startsAt : Form → TokenKind → Bool
  | .primary, kind => kind = .number || kind = .identifier || kind = .string ||
      kind = .trueWord || kind = .falseWord || kind = .noneWord
  | .unary, kind => kind = .dash || kind = .notWord
  | .grouping, kind => kind = .openParen
  | .array, kind => kind = .openBracket
  | .set, kind => kind = .openCurly
  | .ifStatement, kind => kind = .ifWord
  | .whileStatement, kind => kind = .whileWord
  | .forStatement, kind => kind = .forWord
  | .returnStatement, kind => kind = .returnWord
  | .keywordStatement, kind => kind = .passWord || kind = .continueWord || kind = .breakWord
  | .functionDefinition, kind => kind = .defWord
  | .classDefinition, kind => kind = .classWord
  | .argList, _ | .statement, _ | .block, _ => true

/-- The form that is chosen for an expression starts at the token. -/
theorem startsAt_of_expression {kind : TokenKind} {form : Form}
    (h : Grammar.standard.expression kind = some form) : form.startsAt kind = true := by
  cases kind <;> cases h <;> rfl

/-- So does the form that is chosen for a statement. -/
theorem startsAt_of_statement {kind : TokenKind} {form : Form}
    (h : Grammar.standard.statement kind = some form) : form.startsAt kind = true := by
  cases kind <;> cases h <;> rfl

/-- A reader of phrases follows the rules: whatever it reads in front of the end of the file,
the rule of the phrase derives. -/
structure Follows (read : Goal → Parse SyntaxNode) : Prop where
  expression : ∀ (above : Power) {stream : TokenStream}, stream.Closed →
    OnSuccess (read (.expression above)) stream fun node =>
      Gives (.expression above) stream [node]
  form : ∀ (form : Form) {stream : TokenStream}, stream.Closed →
    form.startsAt stream.current.kind = true →
      OnSuccess (read (.form form)) stream fun node => Gives (.form form) stream [node]
  suffix : ∀ {suffix : Suffix} {left : SyntaxNode} {power : Power} {stream : TokenStream},
    stream.Closed → Grammar.standard.suffix stream.current.kind = some (power, suffix) →
      OnSuccess (read (.suffix suffix left power)) stream fun node after =>
        ∃ nodes, node = .branch suffix.kind (left :: nodes) ∧
          Gives (suffix.rule power) stream nodes after

section Readers

variable {p : Parser} {read : Goal → Parse SyntaxNode} {stream : TokenStream}

/-! ## Expressions -/

/-- What is found where an expression may go on: a suffix that binds tightly enough, or that
there is none. -/
def GoesOn (above : Power) (kind : TokenKind) : Option (Power × Suffix) → Prop
  | some (power, suffix) =>
    Grammar.standard.suffix kind = some (power, suffix) ∧ above.rank < power.rank
  | none => (Grammar.standard.power kind).rank ≤ above.rank

/-- A suffix is found if it binds tighter than what is around. -/
theorem suffixAbove_onSuccess (hp : p.grammar = .standard) (above : Power) :
    OnSuccess (suffixAbove p above) stream fun found after =>
      after = stream ∧ GoesOn above stream.current.kind found := by
  apply currentKind_onSuccess
  rw [hp]
  cases hstarts : Grammar.standard.suffix stream.current.kind with
  | none => exact .pure ⟨rfl, by simp [GoesOn, Grammar.power, hstarts, Power.rank]⟩
  | some entry =>
    rcases entry with ⟨power, suffix⟩
    by_cases hbinds : above.rank < power.rank
    · simp only [if_pos hbinds]
      exact .pure ⟨rfl, hstarts, hbinds⟩
    · simp only [if_neg hbinds]
      exact .pure ⟨rfl, by simpa [GoesOn, Grammar.power, hstarts] using hbinds⟩

/-- Suffixes are taken as long as they bind tightly enough: what they keep is true at the end,
and no more of them follow. -/
theorem extend_onSuccess (hp : p.grammar = .standard) {above : Power}
    (keeps : SyntaxNode → TokenStream → Prop)
    (hsuffix : ∀ {left stream power suffix}, keeps left stream →
      Grammar.standard.suffix stream.current.kind = some (power, suffix) →
      above.rank < power.rank → OnSuccess (read (.suffix suffix left power)) stream keeps)
    {limit : Nat} {left : SyntaxNode} (hleft : keeps left stream) :
    OnSuccess (extend p read above limit left) stream fun node after =>
      keeps node after ∧ (Grammar.standard.power after.current.kind).rank ≤ above.rank := by
  induction limit generalizing stream left with
  | zero =>
    apply Meets.bind (suffixAbove_onSuccess hp above)
    rintro found after ⟨rfl, hfound⟩
    cases found with
    | none => exact .pure ⟨hleft, hfound⟩
    | some entry => exact .throw trivial
  | succ limit ih =>
    apply Meets.bind (suffixAbove_onSuccess hp above)
    rintro found after ⟨rfl, hfound⟩
    cases found with
    | none => exact .pure ⟨hleft, hfound⟩
    | some entry =>
      rcases entry with ⟨power, suffix⟩
      -- The expression so far becomes the left part of the suffix, and the loop goes on from it.
      apply Meets.bind (hsuffix hleft hfound.1 hfound.2)
      intro node middle hnode
      exact ih hnode

/-- What follows an operand is taken as long as it binds tightly enough. -/
theorem extend_gives (hp : p.grammar = .standard) (hread : Follows read) {above : Power}
    {limit : Nat} {first : TokenStream} {left : SyntaxNode}
    (hleft : Gives (.operand above) first [left] stream) :
    OnSuccess (extend p read above limit left) stream fun node =>
      Gives (.expression above) first [node] := by
  apply Meets.mono
    (extend_onSuccess hp (fun node => Gives (.operand above) first [node]) ?_ hleft)
  · rintro node after ⟨hnode, hstops⟩
    exact hnode.expression hstops
  · intro left stream power suffix hleft hstarts hbinds
    apply Meets.mono (hread.suffix hleft.closed hstarts)
    rintro _ after ⟨nodes, rfl, hnodes⟩
    exact hleft.extend hstarts hbinds hnodes

/-- An operand is read first, and then all suffixes that bind tightly enough. -/
theorem expression_gives (hp : p.grammar = .standard) (hread : Follows read) (above : Power)
    (hstream : stream.Closed) :
    OnSuccess (p.expression read above) stream fun node =>
      Gives (.expression above) stream [node] := by
  apply currentKind_onSuccess
  rw [hp]
  cases hstarts : Grammar.standard.expression stream.current.kind with
  | none => exact unexpected_onSuccess
  | some form =>
    apply Meets.bind (hread.form form hstream (startsAt_of_expression hstarts))
    intro left middle hleft
    exact extend_gives hp hread (hleft.start hstarts)

/-- An expression is read up to a token that binds no tighter than it may, whatever reads the
phrases in it. -/
theorem expression_stops (hp : p.grammar = .standard) (above : Power) :
    OnSuccess (p.expression read above) stream fun _ after =>
      (Grammar.standard.power after.current.kind).rank ≤ above.rank := by
  apply currentKind_onSuccess
  cases p.grammar.expression stream.current.kind with
  | none => exact unexpected_onSuccess
  | some form =>
    apply Meets.bind (onSuccess_true (read (.form form)))
    intro left middle _
    apply Meets.mono (extend_onSuccess hp (fun _ _ => True) ?_ trivial)
    · rintro node after ⟨-, hstops⟩
      exact hstops
    · intros
      exact onSuccess_true _

/-- Names, numbers and constants are read by their rule. -/
theorem primary_gives (hstream : stream.Closed) :
    OnSuccess p.primary stream fun node => Gives (.form .primary) stream [node] := by
  have hleaf {accepts : TokenKind → Bool} {kind : SyntaxKind} (index : Nat)
      (hrule : [Rule.leaf (· = .number) .number, .name, .leaf (· = .string) .string,
        .leaf (fun kind => kind = .trueWord || kind = .falseWord) .boolean,
        .leaf (· = .noneWord) .none][index]? = some (.leaf accepts kind))
      (haccepts : accepts stream.current.kind = true)
      (hvisible : stream.current.kind.isVisible = true) (hkind : kind.isLeaf = true) :
      OnSuccess (leaf kind) stream fun node => Gives (.form .primary) stream [node] :=
    (leaf_gives hstream haccepts hvisible hkind).mono fun _ _ h => .form (.oneOf index hrule h)
  apply currentKind_onSuccess
  split
  · next hkind => exact hleaf 0 rfl (by simp [hkind]) (by rw [hkind]; rfl) rfl
  · next hkind => exact hleaf 1 rfl (by simp [hkind]) (by rw [hkind]; rfl) rfl
  · next hkind => exact hleaf 2 rfl (by simp [hkind]) (by rw [hkind]; rfl) rfl
  · next hkind => exact hleaf 3 rfl (by simp [hkind]) (by rw [hkind]; rfl) rfl
  · next hkind => exact hleaf 3 rfl (by simp [hkind]) (by rw [hkind]; rfl) rfl
  · next hkind => exact hleaf 4 rfl (by simp [hkind]) (by rw [hkind]; rfl) rfl
  · exact unexpected_onSuccess

/-- So are operators in front of their operand. -/
theorem unary_gives (hread : Follows read) (hstream : stream.Closed)
    (hstarts : Form.unary.startsAt stream.current.kind = true) :
    OnSuccess (unary read) stream fun node => Gives (.form .unary) stream [node] := by
  simp only [Form.startsAt, Bool.or_eq_true, decide_eq_true_eq] at hstarts
  apply currentKind_onSuccess
  rcases hstarts with hkind | hkind
  · apply Meets.bind (leafOf_gives hstream hkind rfl rfl)
    intro operator middle hoperator
    apply Meets.bind (hread.expression _ hoperator.closed)
    intro operand after hoperand
    rw [hkind] at hoperand
    exact .pure (.form (.oneOf 1 rfl (.node rfl (hoperator.cons hoperand.last) rfl)))
  · apply Meets.bind (leafOf_gives hstream hkind rfl rfl)
    intro operator middle hoperator
    apply Meets.bind (hread.expression _ hoperator.closed)
    intro operand after hoperand
    rw [hkind] at hoperand
    exact .pure (.form (.oneOf 0 rfl (.node rfl (hoperator.cons hoperand.last) rfl)))

/-- A comprehension of which the opening bracket and the result are read. -/
theorem comprehensionTail_gives (hread : Follows read) {kind : SyntaxKind} {opening : TokenKind}
    {first middle : TokenStream} {bracket result : SyntaxNode} (hkind : kind.isLeaf = false)
    (hbracket : Gives (.mark opening) first [bracket] middle)
    (hresult : Gives (.expression .lowest) middle [result] stream) :
    OnSuccess (comprehensionTail p read kind bracket result) stream fun node =>
      Gives (.comprehension kind opening) first [node] := by
  apply Meets.bind (expectLeaf_gives hresult.closed rfl rfl)
  intro forWord s₁ hfor
  apply Meets.bind (expectLeaf_gives hfor.closed rfl rfl)
  intro item s₂ hitem
  apply Meets.bind (expectLeaf_gives hitem.closed rfl rfl)
  intro inWord s₃ hin
  apply Meets.bind (hread.expression .ternary hin.closed)
  intro iterable s₄ hiterable
  apply Meets.bind (optionally_gives (.row [.word .ifWord, .expression .ternary])
    hiterable.closed ?_)
  · intro filter s₅ hfilter
    apply currentKind_onSuccess
    split
    · next hclosing =>
      have hvisible : s₅.current.kind.isVisible = true := by
        revert hclosing
        cases s₅.current.kind <;>
          simp [TokenKind.isClosing, TokenKind.isVisible, TokenKind.isLayout]
      apply Meets.bind (leaf_gives hfilter.closed hclosing hvisible rfl)
      intro closing after hclosing
      have hrow := hbracket.cons (hresult.cons (hfor.cons (hitem.cons (hin.cons
        (hiterable.cons (hfilter.cons hclosing.last))))))
      exact .pure (.node hkind hrow (by simp))
    · exact unexpectedBecause_onSuccess
  · intro hif
    apply Meets.bind (leafOf_gives hiterable.closed (of_decide_eq_true hif) rfl rfl)
    intro ifWord s₅ hifWord
    apply Meets.bind (hread.expression .ternary hifWord.closed)
    intro condition s₆ hcondition
    exact .pure (hifWord.cons hcondition.last)

/-- A parenthesis opens a generator or an expression in parentheses. -/
theorem grouping_gives (hread : Follows read) (hstream : stream.Closed)
    (hkind : stream.current.kind = .openParen) :
    OnSuccess (grouping p read) stream fun node => Gives (.form .grouping) stream [node] := by
  apply Meets.bind (leafOf_gives hstream hkind rfl rfl)
  intro opening s₁ hopening
  apply Meets.bind (hread.expression .lowest hopening.closed)
  intro inner s₂ hinner
  apply currentKind_onSuccess
  split
  · exact (comprehensionTail_gives hread rfl hopening hinner).mono fun _ _ h =>
      .form (.oneOf 0 rfl h)
  · apply Meets.bind (optionalMark_gives hinner.closed rfl)
    intro closing after hclosing
    exact .pure (.form (.oneOf 1 rfl (.node rfl (hopening.cons (hinner.cons hclosing.last)) rfl)))

/-- The elements of a list behind the first one.  A comma without an element is the last one, in
front of the bracket. -/
theorem elements_gives (hread : Follows read) (hstream : stream.Closed) :
    OnSuccess (repeatWhile (· = .comma) do
        let comma ← leaf .punctuation
        let element ← optionally (· ≠ .closeBracket) do return [← read (.expression .lowest)]
        return comma :: element) stream fun nodes after =>
      Gives (.many .element) stream nodes after ∨ ∃ before middle behind, nodes = before ++ behind ∧
        Gives (.many .element) stream before middle ∧ Gives (.mark .comma) middle behind after ∧
          after.current.kind = .closeBracket := by
  refine rounds_endsWith .element rfl hstream fun s₁ hclosed hcomma => ?_
  apply Meets.bind (leafOf_gives hclosed (of_decide_eq_true hcomma) rfl rfl)
  intro comma s₂ hcomma
  apply Meets.bind (optionally_onSuccess
    (fun nodes after => Gives (.expression .lowest) s₂ nodes after ∨
      nodes = [] ∧ after = s₂ ∧ s₂.current.kind = .closeBracket) ?_ ?_)
  · rintro element after (helement | ⟨rfl, rfl, hbracket⟩)
    · exact .pure (.inl (hcomma.cons helement.last))
    · exact .pure (.inr ⟨hcomma, hbracket⟩)
  · intro _
    exact (single_gives (hread.expression .lowest hcomma.closed)).mono fun _ _ h => .inl h
  · intro hbracket
    exact .inr ⟨rfl, rfl, by simpa using hbracket⟩

/-- A bracket opens a list or a comprehension. -/
theorem array_gives (hread : Follows read) (hstream : stream.Closed)
    (hkind : stream.current.kind = .openBracket) :
    OnSuccess (array p read) stream fun node => Gives (.form .array) stream [node] := by
  apply Meets.bind (leafOf_gives hstream hkind rfl rfl)
  intro opening s₁ hopening
  apply currentKind_onSuccess
  split
  · next hclosing =>
    apply Meets.bind (leafOf_gives hopening.closed hclosing rfl rfl)
    intro closing after hclosing
    exact .pure (.form (.oneOf 0 rfl (.node rfl (hopening.cons hclosing.last) rfl)))
  · apply Meets.bind (hread.expression .lowest hopening.closed)
    intro first s₂ hfirst
    apply currentKind_onSuccess
    split
    · exact (comprehensionTail_gives hread rfl hopening hfirst).mono fun _ _ h =>
        .form (.oneOf 1 rfl h)
    · apply Meets.bind (elements_gives hread hfirst.closed)
      rintro more s₃ (hmore | ⟨before, s₄, behind, rfl, hbefore, hcomma, hclosing⟩)
      · apply Meets.bind (optionalMark_gives hmore.closed rfl)
        intro closing after hclosing
        have hrow := hopening.cons (hfirst.cons (hmore.cons hclosing.last))
        exact .pure (.form (.oneOf 2 rfl (.node rfl hrow (by simp))))
      · apply Meets.bind (optionally_onSuccess (Gives (.mark .closeBracket) s₃)
          (fun _ => single_gives (leafOf_gives hcomma.closed hclosing rfl rfl))
          fun hnone => absurd hclosing (of_decide_eq_false hnone))
        intro closing after hclosing
        have hrow := hopening.cons (hfirst.cons (hbefore.cons (hcomma.cons hclosing.last)))
        exact .pure (.form (.oneOf 3 rfl (.node rfl hrow (by simp))))

/-- A curly bracket opens a comprehension. -/
theorem set_gives (hread : Follows read) (hstream : stream.Closed)
    (hkind : stream.current.kind = .openCurly) :
    OnSuccess (set p read) stream fun node => Gives (.form .set) stream [node] := by
  apply Meets.bind (leafOf_gives hstream hkind rfl rfl)
  intro opening s₁ hopening
  apply Meets.bind (hread.expression .lowest hopening.closed)
  intro result s₂ hresult
  apply currentKind_onSuccess
  split
  · exact (comprehensionTail_gives hread rfl hopening hresult).mono fun _ _ h => .form h
  · exact unexpectedBecause_onSuccess

/-- Arguments are read up to the closing parenthesis. -/
theorem argList_gives (hread : Follows read) (hstream : stream.Closed) :
    OnSuccess (argList p read) stream fun node => Gives (.form .argList) stream [node] := by
  apply Meets.bind (expectLeaf_gives hstream rfl rfl)
  intro opening s₁ hopening
  apply Meets.bind (repeatWhile_gives (.oneOf [.mark .comma, .expression .lowest])
    hopening.closed ?_)
  · rintro arguments s₂ ⟨harguments, -⟩
    apply Meets.bind (expectLeaf_gives harguments.closed rfl rfl)
    intro closing after hclosing
    have hrow := hopening.cons (harguments.cons hclosing.last)
    exact .pure (.form (.node rfl hrow (by simp)))
  · intro s₂ hclosed _
    apply currentKind_onSuccess
    split
    · next hcomma =>
      exact single_gives ((leafOf_gives hclosed hcomma rfl rfl).mono fun _ _ h => .oneOf 0 rfl h)
    · exact single_gives ((hread.expression .lowest hclosed).mono fun _ _ h => .oneOf 1 rfl h)

/-! ## Suffixes -/

/-- A binary operator is read with its right operand. -/
theorem binary_gives (hread : Follows read) {left : SyntaxNode} {power : Power}
    (hstream : stream.Closed)
    (hstarts : Grammar.standard.suffix stream.current.kind = some (power, .binary)) :
    OnSuccess (binary read left power) stream fun node after =>
      ∃ nodes, node = .branch .binaryExpression (left :: nodes) ∧
        Gives (Suffix.binary.rule power) stream nodes after := by
  have hvisible : stream.current.kind.isVisible = true := by
    revert hstarts
    cases stream.current.kind <;> intro hstarts <;> first | rfl | nomatch hstarts
  have haccepts : startsSuffix .binary power stream.current.kind = true :=
    decide_eq_true hstarts
  apply Meets.bind (leaf_gives hstream haccepts hvisible rfl)
  intro operator middle hoperator
  apply Meets.bind (hread.expression power hoperator.closed)
  intro right after hright
  exact .pure ⟨_, rfl, hoperator.cons hright.last⟩

/-- A conditional is read from its `if` on. -/
theorem conditional_gives (hread : Follows read) {left : SyntaxNode} {power : Power}
    (hstream : stream.Closed) (hkind : stream.current.kind = .ifWord) :
    OnSuccess (conditional p read left) stream fun node after =>
      ∃ nodes, node = .branch .conditionalExpression (left :: nodes) ∧
        Gives (Suffix.conditional.rule power) stream nodes after := by
  apply Meets.bind (leafOf_gives hstream hkind rfl rfl)
  intro ifWord s₁ hif
  apply Meets.bind (hread.expression .ternary hif.closed)
  intro condition s₂ hcondition
  apply Meets.bind (expectLeaf_gives hcondition.closed rfl rfl)
  intro elseWord s₃ helse
  apply Meets.bind (hread.expression .lowest helse.closed)
  intro otherwise after hotherwise
  exact .pure ⟨_, rfl, hif.cons (hcondition.cons (helse.cons hotherwise.last))⟩

/-- A call is read from its arguments on. -/
theorem call_gives (hread : Follows read) {left : SyntaxNode} {power : Power}
    (hstream : stream.Closed) :
    OnSuccess (call p read left) stream fun node after =>
      ∃ nodes, node = .branch .callExpression (left :: nodes) ∧
        Gives (Suffix.call.rule power) stream nodes after := by
  apply Meets.bind (argList_gives hread hstream)
  intro arguments after harguments
  exact .pure ⟨_, rfl, harguments⟩

/-- A member is read from its dot on. -/
theorem member_gives {left : SyntaxNode} {power : Power} (hstream : stream.Closed)
    (hkind : stream.current.kind = .dot) :
    OnSuccess (member p left) stream fun node after =>
      ∃ nodes, node = .branch .memberExpression (left :: nodes) ∧
        Gives (Suffix.member.rule power) stream nodes after := by
  apply Meets.bind (leafOf_gives hstream hkind rfl rfl)
  intro dot middle hdot
  apply Meets.bind (expectLeaf_gives hdot.closed rfl rfl)
  intro property after hproperty
  exact .pure ⟨_, rfl, hdot.cons hproperty.last⟩

/-- An index is read from its bracket on. -/
theorem index_gives (hread : Follows read) {left : SyntaxNode} {power : Power}
    (hstream : stream.Closed) (hkind : stream.current.kind = .openBracket) :
    OnSuccess (index read left) stream fun node after =>
      ∃ nodes, node = .branch .memberExpression (left :: nodes) ∧
        Gives (Suffix.index.rule power) stream nodes after := by
  apply Meets.bind (leafOf_gives hstream hkind rfl rfl)
  intro opening s₁ hopening
  apply Meets.bind (repeatWhile_gives (.oneOf [.mark .colon, .mark .comma, .expression .lowest])
    hopening.closed ?_)
  · rintro inside s₂ ⟨hinside, hstop⟩
    have hclose : s₂.current.kind = .closeBracket := by simpa using hstop
    apply Meets.bind (leafOf_gives hinside.closed hclose rfl rfl)
    intro closing after hclosing
    exact .pure ⟨_, rfl, hopening.cons (hinside.cons hclosing.last)⟩
  · intro s₂ hclosed _
    apply currentKind_onSuccess
    split
    · next hmark =>
      rcases hmark with hcolon | hcomma
      · exact single_gives
          ((leafOf_gives hclosed hcolon rfl rfl).mono fun _ _ h => .oneOf 0 rfl h)
      · exact single_gives
          ((leafOf_gives hclosed hcomma rfl rfl).mono fun _ _ h => .oneOf 1 rfl h)
    · exact single_gives ((hread.expression .lowest hclosed).mono fun _ _ h => .oneOf 2 rfl h)

/-! ## Statements -/

/-- A type is read behind its marker. -/
theorem typeDef_gives (hread : Follows read) {marker : TokenKind} (hstream : stream.Closed)
    (hvisible : marker.isVisible = true) :
    OnSuccess (typeDef p read marker) stream fun node => Gives (.typeDef marker) stream [node] := by
  apply Meets.bind (expectLeaf_gives hstream hvisible rfl)
  intro mark middle hmark
  apply Meets.bind (hread.expression .lowest hmark.closed)
  intro type after htype
  exact .pure (.node rfl (hmark.cons htype.last) rfl)

/-- A type that may be missing. -/
theorem optionalType_gives (hread : Follows read) {marker : TokenKind} (hstream : stream.Closed)
    (hvisible : marker.isVisible = true) :
    OnSuccess (optionally (· = marker) do return [← typeDef p read marker]) stream
      (Gives (.optional (.typeDef marker)) stream) := by
  apply optionally_gives _ hstream
  intro _
  exact single_gives (typeDef_gives hread hstream hvisible)

/-- A statement and the end of its line. -/
theorem endLine_gives {rules : List Rule} {rule : Rule} {node : SyntaxNode}
    {first : TokenStream} (index : Nat) (hrule : rules[index]? = some rule)
    (hnode : Gives rule first [node] stream) :
    OnSuccess (do let _ ← p.expect .newline; return node) stream fun node =>
      Gives (.row [.oneOf rules, .layout .newline]) first [node] := by
  apply Meets.bind (expectLayout_gives hnode.closed rfl)
  intro _ after hline
  exact .pure ((hnode.oneOf index hrule).cons hline.last)

/-- A line without a block is read as an expression or an assignment. -/
theorem simpleStatement_gives (hread : Follows read) (hstream : stream.Closed) :
    OnSuccess (simpleStatement p read) stream fun node =>
      Gives .simpleStatement stream [node] := by
  apply Meets.bind (hread.expression .lowest hstream)
  intro target s₁ htarget
  apply currentKind_onSuccess
  split
  · apply Meets.bind (typeDef_gives hread htarget.closed rfl)
    intro type s₂ htype
    apply Meets.bind (optionally_gives (.row [.leaf (· = .assignment) .assignOp,
      .expression .lowest]) htype.closed ?_)
    · intro value s₃ hvalue
      exact endLine_gives 0 rfl (.node rfl (htarget.cons (htype.cons hvalue.last)) rfl)
    · intro hassign
      apply Meets.bind (leafOf_gives htype.closed (of_decide_eq_true hassign) rfl rfl)
      intro mark s₃ hmark
      apply Meets.bind (hread.expression .lowest hmark.closed)
      intro value s₄ hvalue
      exact .pure (hmark.cons hvalue.last)
  · next hassign =>
    apply Meets.bind (leafOf_gives htarget.closed hassign rfl rfl)
    intro mark s₂ hmark
    apply Meets.bind (hread.expression .lowest hmark.closed)
    intro value s₃ hvalue
    exact endLine_gives 1 rfl (.node rfl (htarget.cons (hmark.cons hvalue.last)) rfl)
  · exact endLine_gives 2 rfl (.node rfl htarget.last rfl)

/-- A statement is read in the form that its first token tells. -/
theorem statement_gives (hp : p.grammar = .standard) (hread : Follows read)
    (hstream : stream.Closed) :
    OnSuccess (statement p read) stream fun node => Gives (.form .statement) stream [node] := by
  apply currentKind_onSuccess
  rw [hp]
  cases hstarts : Grammar.standard.statement stream.current.kind with
  | none => exact (simpleStatement_gives hread hstream).mono fun _ _ h => .form (.oneOf 7 rfl h)
  | some form =>
    have hmem : .form form ∈ Rule.statements := by
      revert hstarts
      cases stream.current.kind <;> intro hstarts <;> cases hstarts <;> simp [Rule.statements]
    rcases List.getElem?_of_mem hmem with ⟨index, hindex⟩
    exact (hread.form form hstream (startsAt_of_statement hstarts)).mono fun _ _ h =>
      .form (.oneOf index hindex h)

/-- A block is read on the same line, or as far as it is indented. -/
theorem block_gives (hread : Follows read) (hstream : stream.Closed) :
    OnSuccess (block p read) stream fun node => Gives (.form .block) stream [node] := by
  apply Meets.bind (optionalMark_gives hstream rfl)
  intro colon s₁ hcolon
  apply currentKind_onSuccess
  split
  · next hline =>
    have hnewline := gives_layout hcolon.closed rfl hline
    have hadvance : Runs advance s₁ s₁.current s₁.next := rfl
    apply Meets.bind_runs hadvance
    apply Meets.bind (expectLayout_gives hnewline.closed rfl)
    intro _ s₂ hindent
    apply Meets.bind (repeatWhile_gives (.form .statement) hindent.closed ?_)
    · rintro statements s₃ ⟨hstatements, -⟩
      apply Meets.bind (expectLayout_gives hstatements.closed rfl)
      intro _ after hdedent
      have hrow := hcolon.cons (hnewline.cons (hindent.cons (hstatements.cons hdedent.last)))
      exact .pure (.form (.oneOf 0 rfl (.node rfl hrow (by simp))))
    · intro s₃ hclosed _
      exact single_gives (hread.form .statement hclosed rfl)
  · apply Meets.bind (hread.form .statement hcolon.closed rfl)
    intro statement after hstatement
    exact .pure (.form (.oneOf 1 rfl (.node rfl (hcolon.cons hstatement.last) rfl)))

/-- The last branch is read if there is one. -/
theorem elsePart_gives (hread : Follows read) (hstream : stream.Closed) :
    OnSuccess (elsePart read) stream (Gives .elsePart stream) := by
  apply optionally_gives _ hstream
  intro helse
  apply Meets.bind (leafOf_gives hstream (of_decide_eq_true helse) rfl rfl)
  intro word middle hword
  apply Meets.bind (hread.form .block hword.closed rfl)
  intro body after hbody
  exact .pure (hword.cons hbody.last)

/-- A conditional is read with all its branches. -/
theorem ifStatement_gives (hread : Follows read) (hstream : stream.Closed)
    (hkind : stream.current.kind = .ifWord) :
    OnSuccess (ifStatement read) stream fun node => Gives (.form .ifStatement) stream [node] := by
  apply Meets.bind (leafOf_gives hstream hkind rfl rfl)
  intro word s₁ hword
  apply Meets.bind (hread.expression .lowest hword.closed)
  intro condition s₂ hcondition
  apply Meets.bind (hread.form .block hcondition.closed rfl)
  intro body s₃ hbody
  apply Meets.bind (repeatWhile_gives (.row [.word .elifWord, .expression .lowest, .form .block])
    hbody.closed ?_)
  · rintro more s₄ ⟨hmore, -⟩
    apply Meets.bind (elsePart_gives hread hmore.closed)
    intro otherwise after hotherwise
    have hrow := hword.cons (hcondition.cons (hbody.cons (hmore.cons hotherwise.last)))
    exact .pure (.form (.node rfl hrow (by simp)))
  · intro s₄ hclosed helif
    apply Meets.bind (leafOf_gives hclosed (of_decide_eq_true helif) rfl rfl)
    intro word s₅ hword
    apply Meets.bind (hread.expression .lowest hword.closed)
    intro condition s₆ hcondition
    apply Meets.bind (hread.form .block hcondition.closed rfl)
    intro body s₇ hbody
    exact .pure (hword.cons (hcondition.cons hbody.last))

/-- A loop under a condition is read by its rule. -/
theorem whileStatement_gives (hread : Follows read) (hstream : stream.Closed)
    (hkind : stream.current.kind = .whileWord) :
    OnSuccess (whileStatement read) stream fun node =>
      Gives (.form .whileStatement) stream [node] := by
  apply Meets.bind (leafOf_gives hstream hkind rfl rfl)
  intro word s₁ hword
  apply Meets.bind (hread.expression .lowest hword.closed)
  intro condition s₂ hcondition
  apply Meets.bind (hread.form .block hcondition.closed rfl)
  intro body after hbody
  exact .pure (.form (.node rfl (hword.cons (hcondition.cons hbody.last)) rfl))

/-- A loop over elements is read with the branch behind it. -/
theorem forStatement_gives (hread : Follows read) (hstream : stream.Closed)
    (hkind : stream.current.kind = .forWord) :
    OnSuccess (forStatement p read) stream fun node =>
      Gives (.form .forStatement) stream [node] := by
  apply Meets.bind (leafOf_gives hstream hkind rfl rfl)
  intro word s₁ hword
  apply Meets.bind (expectLeaf_gives hword.closed rfl rfl)
  intro item s₂ hitem
  apply Meets.bind (expectLeaf_gives hitem.closed rfl rfl)
  intro inWord s₃ hin
  apply Meets.bind (hread.expression .lowest hin.closed)
  intro iterable s₄ hiterable
  apply Meets.bind (hread.form .block hiterable.closed rfl)
  intro body s₅ hbody
  apply Meets.bind (elsePart_gives hread hbody.closed)
  intro otherwise after hotherwise
  have hrow := hword.cons (hitem.cons (hin.cons (hiterable.cons (hbody.cons hotherwise.last))))
  exact .pure (.form (.node rfl hrow (by simp)))

/-- A return is read with its value, if there is one. -/
theorem returnStatement_gives (hread : Follows read) (hstream : stream.Closed)
    (hkind : stream.current.kind = .returnWord) :
    OnSuccess (returnStatement p read) stream fun node =>
      Gives (.form .returnStatement) stream [node] := by
  apply Meets.bind (leafOf_gives hstream hkind rfl rfl)
  intro word s₁ hword
  apply Meets.bind (optionally_gives (.expression .lowest) hword.closed ?_)
  · intro value s₂ hvalue
    apply Meets.bind (expectLayout_gives hvalue.closed rfl)
    intro _ after hline
    exact .pure (.form ((Gives.node rfl (hword.cons hvalue.last) rfl).cons hline.last))
  · intro _
    exact single_gives (hread.expression .lowest hword.closed)

/-- A statement of one word and the end of its line. -/
theorem wordStatement_gives {kind : SyntaxKind} {token : TokenKind} (index : Nat)
    (hrule : [Rule.wordStatement .passStatement .passWord,
      .wordStatement .continueStatement .continueWord,
      .wordStatement .breakStatement .breakWord][index]? = some (.wordStatement kind token))
    (hleaf : kind.isLeaf = false) (hvisible : token.isVisible = true) (hstream : stream.Closed)
    (hkind : stream.current.kind = token) :
    OnSuccess (do
      let word ← leaf .keyword
      let _ ← p.expect .newline
      return .branch kind [word]) stream fun node =>
        Gives (.form .keywordStatement) stream [node] := by
  apply Meets.bind (leafOf_gives hstream hkind hvisible rfl)
  intro word middle hword
  apply Meets.bind (expectLayout_gives hword.closed rfl)
  intro _ after hline
  have hrow : Gives (.wordStatement kind token) stream [.branch kind [word]] after :=
    (Gives.node hleaf hword.last rfl).cons hline.last
  exact .pure (.form (hrow.oneOf index hrule))

/-- Statements of one keyword are read by their rule. -/
theorem keywordStatement_gives (hstream : stream.Closed) :
    OnSuccess p.keywordStatement stream fun node =>
      Gives (.form .keywordStatement) stream [node] := by
  apply currentKind_onSuccess
  split
  · next hkind => exact wordStatement_gives 0 rfl rfl rfl hstream hkind
  · next hkind => exact wordStatement_gives 1 rfl rfl rfl hstream hkind
  · next hkind => exact wordStatement_gives 2 rfl rfl rfl hstream hkind
  · exact unexpected_onSuccess

/-- Parameters are read up to the closing parenthesis. -/
theorem paramList_gives (hread : Follows read) (hstream : stream.Closed) :
    OnSuccess (paramList p read) stream fun node =>
      Gives (.node .paramList (.row [.mark .openParen, .many .parameter, .mark .closeParen]))
        stream [node] := by
  apply Meets.bind (expectLeaf_gives hstream rfl rfl)
  intro opening s₁ hopening
  apply Meets.bind (repeatWhile_gives .parameter hopening.closed ?_)
  · rintro parameters s₂ ⟨hparameters, hstop⟩
    have hclose : s₂.current.kind = .closeParen := by simpa using hstop
    apply Meets.bind (leafOf_gives hparameters.closed hclose rfl rfl)
    intro closing after hclosing
    have hrow := hopening.cons (hparameters.cons hclosing.last)
    exact .pure (.node rfl hrow (by simp))
  · intro s₂ hclosed _
    apply Meets.bind (expectLeaf_gives hclosed rfl rfl)
    intro name s₃ hname
    apply Meets.bind (optionalType_gives hread hname.closed rfl)
    intro type s₄ htype
    apply currentKind_onSuccess
    split
    · next hcomma =>
      apply Meets.bind (leafOf_gives htype.closed hcomma rfl rfl)
      intro comma after hcomma
      exact .pure (hname.cons (htype.cons hcomma.optional.last))
    · have hnone : Gives (.optional (.mark .comma)) s₄ [] s₄ := .skipped htype.closed
      exact .pure ((hname.cons (htype.cons hnone.last)).of_eq (by simp))
    · exact unexpectedBecause_onSuccess

/-- The definition of a function is read by its rule. -/
theorem functionDefinition_gives (hread : Follows read) (hstream : stream.Closed)
    (hkind : stream.current.kind = .defWord) :
    OnSuccess (functionDefinition p read) stream fun node =>
      Gives (.form .functionDefinition) stream [node] := by
  apply Meets.bind (leafOf_gives hstream hkind rfl rfl)
  intro word s₁ hword
  apply Meets.bind (expectLeaf_gives hword.closed rfl rfl)
  intro name s₂ hname
  apply Meets.bind (paramList_gives hread hname.closed)
  intro parameters s₃ hparameters
  apply Meets.bind (optionalType_gives hread hparameters.closed rfl)
  intro result s₄ hresult
  apply Meets.bind (hread.form .block hresult.closed rfl)
  intro body after hbody
  have hrow := hword.cons (hname.cons (hparameters.cons (hresult.cons hbody.last)))
  exact .pure (.form (.node rfl hrow (by simp)))

/-- So is the definition of a class. -/
theorem classDefinition_gives (hread : Follows read) (hstream : stream.Closed)
    (hkind : stream.current.kind = .classWord) :
    OnSuccess (classDefinition p read) stream fun node =>
      Gives (.form .classDefinition) stream [node] := by
  apply Meets.bind (leafOf_gives hstream hkind rfl rfl)
  intro word s₁ hword
  apply Meets.bind (expectLeaf_gives hword.closed rfl rfl)
  intro name s₂ hname
  apply Meets.bind (optionally_gives (.form .argList) hname.closed ?_)
  · intro bases s₃ hbases
    apply Meets.bind (hread.form .block hbases.closed rfl)
    intro body after hbody
    have hrow := hword.cons (hname.cons (hbases.cons hbody.last))
    exact .pure (.form (.node rfl hrow (by simp)))
  · intro _
    exact single_gives (argList_gives hread hname.closed)

/-! ## All rules -/

/-- A phrase is read by its rule if smaller phrases are. -/
theorem rule_follows (hp : p.grammar = .standard) (hread : Follows read) :
    Follows (p.rule read) where
  expression above _ hstream := expression_gives hp hread above hstream
  form form stream hstream hstarts := by
    cases form with
    | primary => exact primary_gives hstream
    | unary => exact unary_gives hread hstream hstarts
    | grouping => exact grouping_gives hread hstream (of_decide_eq_true hstarts)
    | array => exact array_gives hread hstream (of_decide_eq_true hstarts)
    | set => exact set_gives hread hstream (of_decide_eq_true hstarts)
    | argList => exact argList_gives hread hstream
    | statement => exact statement_gives hp hread hstream
    | block => exact block_gives hread hstream
    | ifStatement => exact ifStatement_gives hread hstream (of_decide_eq_true hstarts)
    | whileStatement => exact whileStatement_gives hread hstream (of_decide_eq_true hstarts)
    | forStatement => exact forStatement_gives hread hstream (of_decide_eq_true hstarts)
    | returnStatement => exact returnStatement_gives hread hstream (of_decide_eq_true hstarts)
    | keywordStatement => exact keywordStatement_gives hstream
    | functionDefinition =>
      exact functionDefinition_gives hread hstream (of_decide_eq_true hstarts)
    | classDefinition => exact classDefinition_gives hread hstream (of_decide_eq_true hstarts)
  suffix := by
    intro suffix left power stream hstream hstarts
    have hkind {kind : TokenKind} (h : ∀ other, Grammar.standard.suffix other =
        some (power, suffix) → other = kind) : stream.current.kind = kind := h _ hstarts
    cases suffix with
    | binary => exact binary_gives hread hstream hstarts
    | conditional =>
      refine conditional_gives hread hstream (hkind fun other h => ?_)
      cases other <;> first | rfl | nomatch h
    | call => exact call_gives hread hstream
    | member =>
      refine member_gives hstream (hkind fun other h => ?_)
      cases other <;> first | rfl | nomatch h
    | index =>
      refine index_gives hread hstream (hkind fun other h => ?_)
      cases other <;> first | rfl | nomatch h

end Readers

/-- The reader of the language follows the rules. -/
theorem readWithin_follows {p : Parser} (hp : p.grammar = .standard) (fuel : Nat) :
    Follows (p.readWithin fuel) := by
  induction fuel with
  | zero =>
    constructor
    · intro above stream hstream
      exact .throw trivial
    · intro form stream hstream hstarts
      exact .throw trivial
    · intro suffix left power stream hstream hstarts
      exact .throw trivial
  | succ fuel ih => exact rule_follows hp ih

/-- What is read within a bound that depends on the stream is read within some bound. -/
theorem read_onSuccess {p : Parser} {goal : Goal} {stream : TokenStream}
    {post : SyntaxNode → TokenStream → Prop}
    (h : ∀ fuel, OnSuccess (p.readWithin fuel goal) stream post) :
    OnSuccess (p.read goal) stream post := by
  have hread := h (nesting stream)
  unfold OnSuccess Meets at hread ⊢
  rw [Parser.read]
  exact hread

/-! ## Token lists -/

/-- A completed token list ends with the end of the file. -/
theorem complete_eq (tokens : List Token) (stop : Nat) :
    ∃ before fileEnd, TokenStream.complete tokens stop = before ++ [fileEnd] ∧
      fileEnd.kind = .eof := by
  unfold TokenStream.complete
  split
  · next hend =>
    rcases Option.map_eq_some_iff.mp hend with ⟨fileEnd, hlast, hkind⟩
    rcases List.getLast?_eq_some_iff.mp hlast with ⟨before, rfl⟩
    exact ⟨before, fileEnd, rfl, hkind⟩
  · exact ⟨tokens, .eof stop, rfl, rfl⟩

/-- The stream of a token list is closed, and has the tokens of the completed list. -/
theorem toList_ofTokens (tokens : List Token) (stop : Nat) :
    (TokenStream.ofTokens tokens stop).toList = TokenStream.complete tokens stop ∧
      (TokenStream.ofTokens tokens stop).Closed := by
  obtain ⟨before, fileEnd, hcomplete, hkind⟩ := complete_eq tokens stop
  have hlist : (TokenStream.ofTokens tokens stop).toList = TokenStream.complete tokens stop := by
    unfold TokenStream.ofTokens
    split
    · next hcons => exact hcons.symm
    · next hnil => simp [hcomplete] at hnil
  refine ⟨hlist, ?_⟩
  simp [TokenStream.Closed, hlist, hcomplete, hkind]

/-- A reader of whole trees gives statements up to the end of the file. -/
theorem script_onSuccess {p : Parser} (hp : p.grammar = .standard) {stream : TokenStream}
    (hstream : stream.Closed) :
    OnSuccess p.script stream fun tree after => ∃ nodes,
      tree = ⟨.script, ⟨0, Source.byteSize p.source⟩, nodes⟩ ∧
        Gives (.many (.form .statement)) stream nodes after ∧ after.current.kind = .eof := by
  apply Meets.bind (repeatWhile_gives (.form .statement) hstream ?_)
  · rintro nodes after ⟨hnodes, hstop⟩
    exact .pure ⟨nodes, rfl, hnodes, by simpa using hstop⟩
  · intro stream hclosed _
    exact single_gives (read_onSuccess fun fuel =>
      (readWithin_follows hp fuel).form .statement hclosed rfl)

/-- Statements derive the children of the tree of a token list that is parsed. -/
theorem parse_derives {tokens : List Token} {source : Source} {tree : SyntaxNode}
    (h : parse tokens source = .ok tree) :
    ∃ phrases rest, tree = ⟨.script, ⟨0, Source.byteSize source⟩, phrases.map Phrase.node⟩ ∧
      Derives (.many (.form .statement)) (TokenStream.complete tokens (Source.byteSize source))
        phrases rest ∧ nextKind rest = .eof := by
  obtain ⟨hlist, hclosed⟩ := toList_ofTokens tokens (Source.byteSize source)
  have hscript := script_onSuccess (p := ⟨source, .standard⟩) rfl hclosed
  unfold OnSuccess Meets at hscript
  have hparse : parse tokens source = ((Parser.script ⟨source, .standard⟩)
      (TokenStream.ofTokens tokens (Source.byteSize source))).bind fun entry => .ok entry.1 := rfl
  rw [hparse] at h
  cases hrun : (Parser.script ⟨source, .standard⟩)
      (TokenStream.ofTokens tokens (Source.byteSize source)) with
  | error failure =>
    rw [hrun] at h
    cases h
  | ok entry =>
    rw [hrun] at h hscript
    cases h
    obtain ⟨nodes, htree, ⟨phrases, hphrases, hderives, -⟩, hend⟩ := hscript
    refine ⟨phrases, entry.2.toList, ?_, ?_, hend⟩
    · rw [htree, hphrases]
    · rw [← hlist]
      exact hderives

end Offside
