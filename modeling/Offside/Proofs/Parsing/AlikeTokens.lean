import Offside.Proofs.Abreast
import Offside.Proofs.Parsing.Readers
import Offside.Proofs.Syntax.Alike

/-!
# Parsing alike tokens

Two token lists whose tokens have the same kinds one by one are parsed abreast: the same phrases
are read, and either both readings end in trees of the same shape, or both are refused at tokens
that go together.  How tokens, nodes and failures go together otherwise is left open.  Since every
phrase takes a token, the steps allotted to a reading always suffice.

Main definitions:

- `Likeness`: how tokens, nodes and failures of two parsers go together.
- `Parser.Alike`: two parsers keep to a likeness.
- `Reads`: two readers go together and take some tokens.

Main results:

- Theorem `readWithin_reads`: the readers of two parsers go together.
- Theorem `parse_alike`: alike token lists are parsed to alike trees, or both are refused.
-/

namespace Offside

open Offside.Parser Parse

/-- How the tokens, the nodes and the failures of two parsers go together. -/
structure Likeness where
  token : Token → Token → Prop
  node : SyntaxNode → SyntaxNode → Prop
  failure : Failure → Failure → Prop

/-- The cause for which a parser refuses a token, perhaps with a reason. -/
def Cause.unexpected (reason : Option String) (token : Token) : Cause :=
  match reason with
  | none => .unexpectedToken token.shown
  | some reason => .unexpectedTokenDetailed token.shown reason

namespace Cause

/-- An unexpected token is a matter of parsing. -/
theorem stage_unexpected (reason : Option String) (token : Token) :
    (unexpected reason token).stage = .parse := by
  cases reason <;> rfl

/-- Which token is refused does not show in the name of the cause. -/
theorem name_unexpected (reason : Option String) (token token' : Token) :
    (unexpected reason token).name = (unexpected reason token').name := by
  cases reason <;> rfl

end Cause

/-- Two parsers keep to a likeness: of tokens that go together, the kinds are the same, the
refusals go together, and so do the leaves; nodes go together with their children. -/
structure Parser.Alike (m : Likeness) (p p' : Parser) : Prop where
  grammar : p.grammar = .standard
  grammar' : p'.grammar = .standard
  kind : ∀ {token token' : Token}, m.token token token' → token.kind = token'.kind
  refuse : ∀ {token token' : Token} (reason : Option String), m.token token token' →
    ∀ {α β : Type} (rel : α → β → Prop), Outcome.Alike m.failure rel
      (.refuseAt p.source token.span.start (.unexpected reason token))
      (.refuseAt p'.source token'.span.start (.unexpected reason token'))
  leaf : ∀ {token token' : Token} {kind : SyntaxKind}, m.token token token' →
    token.kind.isVisible = true → kind.isLeaf = true →
      m.node (.leaf kind token.span) (.leaf kind token'.span)
  branch : ∀ {kind : SyntaxKind} {nodes nodes' : List SyntaxNode}, kind.isLeaf = false →
    List.Forall₂ (SyntaxNode.Alike m.node) nodes nodes' →
      m.node (.branch kind nodes) (.branch kind nodes')

/-- Two streams hold alike tokens, and the last one is the end of the file. -/
structure TokenStream.Alike (m : Likeness) (stream stream' : TokenStream) : Prop where
  tokens : List.Forall₂ m.token stream.toList stream'.toList
  closed : stream.Closed

/-- Two streams are alike, with fewer tokens behind the current one than `bound`. -/
structure Within (m : Likeness) (bound : Nat) (stream stream' : TokenStream) : Prop where
  alike : stream.Alike m stream'
  less : stream.rest.length < bound

/-- Two readers go together: both give what goes together, and leave fewer tokens than `bound`, or
both are refused. -/
def Reads {α β : Type} (m : Likeness) (bound : Nat) (rel : α → β → Prop) (reader : Parse α)
    (reader' : Parse β) (stream stream' : TokenStream) : Prop :=
  Abreast m.failure reader reader' stream stream' fun value after value' after' =>
    rel value value' ∧ Within m bound after after'

variable {m : Likeness} {p p' : Parser} {s s' t t' : TokenStream} {α β γ δ : Type}
  {bound more : Nat}

/-- Streams within a bound are within a larger one. -/
theorem Within.mono (h : Within m bound s s') (hle : bound ≤ more) : Within m more s s' :=
  ⟨h.alike, Nat.lt_of_lt_of_le h.less hle⟩

/-- The rows of nodes that readers give. -/
abbrev Likeness.nodes (m : Likeness) : List SyntaxNode → List SyntaxNode → Prop :=
  List.Forall₂ (SyntaxNode.Alike m.node)

/-! ## Readers in a row -/

namespace Reads

variable {rel : α → β → Prop} {rel' : γ → δ → Prop} {reader : Parse α} {reader' : Parse β}
  {next : α → Parse γ} {next' : β → Parse δ}

/-- Values that go together are given without taking tokens. -/
theorem pure {value : α} {value' : β} (h : rel value value') (hs : Within m bound s s') :
    Reads m bound rel (Pure.pure value) (Pure.pure value') s s' :=
  Abreast.pure ⟨h, hs⟩

/-- Readers that leave few tokens leave fewer than any larger bound. -/
theorem mono (h : Reads m bound rel reader reader' s s') (hle : bound ≤ more) :
    Reads m more rel reader reader' s s' :=
  Abreast.mono h fun _ _ _ _ hends => ⟨hends.1, hends.2.mono hle⟩

/-- Readers in a row go together if the first ones do, and what follows does too. -/
theorem bind (h : Reads m bound rel reader reader' s s')
    (hnext : ∀ value value' t t', rel value value' → Within m bound t t' →
      Reads m more rel' (next value) (next' value') t t') :
    Reads m more rel' (reader >>= next) (reader' >>= next') s s' :=
  Abreast.bind h fun _ _ _ _ hends => hnext _ _ _ _ hends.1 hends.2

/-- The nodes of one reader, as a row. -/
theorem single {reader reader' : Parse SyntaxNode}
    (h : Reads m bound (SyntaxNode.Alike m.node) reader reader' s s') :
    Reads m bound m.nodes (do return [← reader]) (do return [← reader']) s s' :=
  h.bind fun _ _ _ _ hnode ht => pure (.cons hnode .nil) ht

end Reads

/-! ## Tokens -/

namespace TokenStream.Alike

variable {rel : α → β → Prop}

/-- The current tokens of alike streams go together. -/
theorem current (h : s.Alike m s') : m.token s.current s'.current := by
  have htokens := h.tokens
  rw [toList, toList] at htokens
  exact (List.forall₂_cons.mp htokens).1

/-- So do the tokens behind them. -/
theorem rest (h : s.Alike m s') : List.Forall₂ m.token s.rest s'.rest := by
  have htokens := h.tokens
  rw [toList, toList] at htokens
  exact (List.forall₂_cons.mp htokens).2

/-- Before the end of the file, one more token of each stream is read. -/
theorem next (h : s.Alike m s') (hkind : s.current.kind ≠ .eof) :
    Within m s.rest.length s.next s'.next := by
  have hclosed := (h.closed.toList_eq hkind).2
  have hrest := h.rest
  rcases s with ⟨token, _ | ⟨second, tokens⟩⟩
  · exact absurd (Option.some.inj h.closed) hkind
  · rcases s' with ⟨token', tokens'⟩
    rcases List.forall₂_cons_left_iff.mp hrest with ⟨second', more, hsecond, hmore, hall⟩
    simp only at hall
    subst hall
    exact ⟨⟨.cons hsecond hmore, hclosed⟩, Nat.lt_succ_self _⟩

end TokenStream.Alike

section Tokens

variable {rel : α → β → Prop} {kind : TokenKind} {leafKind : SyntaxKind}

/-- A look at the current kind has the same result in both streams. -/
theorem currentKind_bind_abreast {next : TokenKind → Parse α} {next' : TokenKind → Parse β}
    {post : α → TokenStream → β → TokenStream → Prop} (hp : Parser.Alike m p p')
    (hs : s.Alike m s')
    (hnext : Abreast m.failure (next s.current.kind) (next' s.current.kind) s s' post) :
    Abreast m.failure (currentKind >>= next) (currentKind >>= next') s s' post := by
  have hkind : s'.current.kind = s.current.kind := (hp.kind hs.current).symm
  have hruns : Runs currentKind s s.current.kind s := rfl
  have hruns' : Runs currentKind s' s.current.kind s' := hkind ▸ rfl
  exact Abreast.bind_runs hruns hruns' hnext

/-- A reader may look at the current kind, which is the same on both sides. -/
theorem currentKind_reads {next : TokenKind → Parse α} {next' : TokenKind → Parse β}
    (hp : Parser.Alike m p p') (hs : s.Alike m s')
    (hnext : Reads m bound rel (next s.current.kind) (next' s.current.kind) s s') :
    Reads m bound rel (currentKind >>= next) (currentKind >>= next') s s' :=
  currentKind_bind_abreast hp hs hnext

/-- A refusal of the current token goes together with a refusal of the other one. -/
theorem unexpected_reads (hp : Parser.Alike m p p') (hs : s.Alike m s') :
    Reads m bound rel p.unexpected p'.unexpected s s' :=
  hp.refuse none hs.current _

/-- So does a refusal with a reason. -/
theorem unexpectedBecause_reads (hp : Parser.Alike m p p') (hs : s.Alike m s') (reason : String) :
    Reads m bound rel (p.unexpectedBecause reason) (p'.unexpectedBecause reason) s s' :=
  hp.refuse (some reason) hs.current _

/-- The end of the file does not show. -/
theorem ne_eof_of_isVisible (h : kind.isVisible = true) : kind ≠ .eof := by
  rintro rfl
  nomatch h

/-- A word that can be seen is read as a leaf. -/
theorem leaf_reads (hp : Parser.Alike m p p') (hs : s.Alike m s')
    (hvisible : s.current.kind.isVisible = true) (hleaf : leafKind.isLeaf = true) :
    Reads m s.rest.length (SyntaxNode.Alike m.node) (leaf leafKind) (leaf leafKind) s s' :=
  .ok ⟨.leaf (hp.leaf hs.current hvisible hleaf), hs.next (ne_eof_of_isVisible hvisible)⟩

/-- A node is put over the nodes that have been read. -/
theorem branch_reads (hp : Parser.Alike m p p') {nodes nodes' : List SyntaxNode}
    (hkind : leafKind.isLeaf = false) (hnodes : m.nodes nodes nodes') (hs : Within m bound s s') :
    Reads m bound (SyntaxNode.Alike m.node) (pure (.branch leafKind nodes))
      (pure (.branch leafKind nodes')) s s' :=
  .pure (.branch hnodes (hp.branch hkind hnodes)) hs

/-- A token of a known kind is read as a leaf. -/
theorem leafOf_reads (hp : Parser.Alike m p p') (hs : Within m bound s s')
    (hkind : s.current.kind = kind) (hvisible : kind.isVisible = true)
    (hleaf : leafKind.isLeaf = true) :
    Reads m bound (SyntaxNode.Alike m.node) (leaf leafKind) (leaf leafKind) s s' :=
  (leaf_reads hp hs.alike (hkind ▸ hvisible) hleaf).mono (Nat.le_of_lt hs.less)

/-- One token is taken on each side. -/
theorem advance_reads (hs : s.Alike m s') (hkind : s.current.kind ≠ .eof) :
    Reads m s.rest.length m.token advance advance s s' :=
  .ok ⟨hs.current, hs.next hkind⟩

/-- The expected kind of token is taken on both sides, or refused on both. -/
theorem expect_reads (hp : Parser.Alike m p p') (hs : s.Alike m s') (hkind : kind ≠ .eof) :
    Reads m s.rest.length (fun token token' => m.token token token' ∧ token.kind = kind)
      (p.expect kind) (p'.expect kind) s s' := by
  refine currentKind_reads hp hs ?_
  split
  · next hcurrent =>
    exact .ok ⟨⟨hs.current, hcurrent⟩, hs.next (hcurrent ▸ hkind)⟩
  · exact unexpected_reads hp hs

/-- So it is when the token becomes a leaf. -/
theorem expectLeaf_takes (hp : Parser.Alike m p p') (hs : s.Alike m s')
    (hvisible : kind.isVisible = true) (hleaf : leafKind.isLeaf = true) :
    Reads m s.rest.length (SyntaxNode.Alike m.node) (p.expectLeaf kind leafKind)
      (p'.expectLeaf kind leafKind) s s' := by
  refine (expect_reads hp hs (ne_eof_of_isVisible hvisible)).bind fun _ _ _ _ htoken ht => ?_
  exact .pure (.leaf (hp.leaf htoken.1 (htoken.2 ▸ hvisible) hleaf)) ht

/-- A token that becomes a leaf is read within any bound. -/
theorem expectLeaf_reads (hp : Parser.Alike m p p') (hs : Within m bound s s')
    (hvisible : kind.isVisible = true) (hleaf : leafKind.isLeaf = true) :
    Reads m bound (SyntaxNode.Alike m.node) (p.expectLeaf kind leafKind)
      (p'.expectLeaf kind leafKind) s s' :=
  (expectLeaf_takes hp hs.alike hvisible hleaf).mono (Nat.le_of_lt hs.less)

/-- A token of layout is read without a trace. -/
theorem expectLayout_reads (hp : Parser.Alike m p p') (hs : Within m bound s s')
    (hlayout : kind.isLayout = true) :
    Reads m bound (fun _ _ => True) (p.expect kind) (p'.expect kind) s s' := by
  have heof : kind ≠ .eof := by
    rintro rfl
    nomatch hlayout
  exact Abreast.mono (expect_reads hp hs.alike heof) fun _ _ _ _ h =>
    ⟨trivial, h.2.mono (Nat.le_of_lt hs.less)⟩

end Tokens

/-! ## Parts -/

section Parts

variable {passes : TokenKind → Bool} {item item' : Parse (List SyntaxNode)}

/-- A part is there on both sides, or on none. -/
theorem optionally_reads (hp : Parser.Alike m p p') (hs : Within m bound s s')
    (hitem : passes s.current.kind = true → Reads m bound m.nodes item item' s s') :
    Reads m bound m.nodes (optionally passes item) (optionally passes item') s s' := by
  refine currentKind_reads hp hs.alike ?_
  split
  · next hpasses => exact hitem hpasses
  · exact .pure .nil hs

/-- A mark that may be missing. -/
theorem optionalMark_reads {kind : TokenKind} (hp : Parser.Alike m p p')
    (hs : Within m bound s s') (hvisible : kind.isVisible = true) :
    Reads m bound m.nodes (optionally (· = kind) do return [← leaf .punctuation])
      (optionally (· = kind) do return [← leaf .punctuation]) s s' :=
  optionally_reads hp hs fun hkind =>
    (leafOf_reads hp hs (of_decide_eq_true hkind) hvisible rfl).single

/-- A repetition whose rounds each take a token ends at a token that does not pass. -/
theorem rounds_reads (hp : Parser.Alike m p p') {limit limit' : Nat} (hlimits : limit = limit')
    (hlimit : s.rest.length < limit) (hs : Within m bound s s')
    (hitem : ∀ t t', Within m bound t t' → passes t.current.kind = true →
      Reads m t.rest.length m.nodes item item' t t') :
    Abreast m.failure (rounds passes item limit) (rounds passes item' limit') s s'
      fun nodes after nodes' after' => (m.nodes nodes nodes' ∧ Within m bound after after') ∧
        passes after.current.kind = false := by
  subst hlimits
  -- On the rounds that are left; each takes a token, so they do not run out.
  induction limit generalizing s s' with
  | zero => exact absurd hlimit (Nat.not_lt_zero _)
  | succ limit ih =>
    refine currentKind_bind_abreast hp hs.alike ?_
    split
    · next hpasses =>
      refine Abreast.bind (hitem s s' hs hpasses) fun first t first' t' hfirst => ?_
      have ht : Within m bound t t' := hfirst.2.mono (Nat.le_of_lt hs.less)
      have hless := hfirst.2.less
      refine Abreast.bind (ih (by omega) ht) fun more u more' u' hmore => ?_
      exact .pure ⟨⟨List.rel_append hfirst.1 hmore.1.1, hmore.1.2⟩, hmore.2⟩
    · next hpasses => exact .pure ⟨⟨.nil, hs⟩, Bool.eq_false_iff.mpr hpasses⟩

/-- There are as many rounds on one side as on the other. -/
theorem repeatWhile_abreast (hp : Parser.Alike m p p') (hs : Within m bound s s')
    (hitem : ∀ t t', Within m bound t t' → passes t.current.kind = true →
      Reads m t.rest.length m.nodes item item' t t') :
    Abreast m.failure (repeatWhile passes item) (repeatWhile passes item') s s'
      fun nodes after nodes' after' => (m.nodes nodes nodes' ∧ Within m bound after after') ∧
        passes after.current.kind = false :=
  rounds_reads hp (congrArg (· + 1) hs.alike.rest.length_eq) (Nat.lt_succ_self _) hs hitem

/-- What follows a repetition may use that no further round starts. -/
theorem repeatWhile_bind {rel : α → β → Prop} {next : List SyntaxNode → Parse α}
    {next' : List SyntaxNode → Parse β} (hp : Parser.Alike m p p') (hs : Within m bound s s')
    (hitem : ∀ t t', Within m bound t t' → passes t.current.kind = true →
      Reads m t.rest.length m.nodes item item' t t')
    (hnext : ∀ nodes nodes' t t', m.nodes nodes nodes' → Within m bound t t' →
      passes t.current.kind = false → Reads m more rel (next nodes) (next' nodes') t t') :
    Reads m more rel (repeatWhile passes item >>= next) (repeatWhile passes item' >>= next')
      s s' :=
  Abreast.bind (repeatWhile_abreast hp hs hitem) fun _ _ _ _ h => hnext _ _ _ _ h.1.1 h.1.2 h.2

end Parts

/-! ## Readers of smaller phrases -/

/-- Two readers of phrases go together on all streams with fewer tokens than a bound. -/
structure ReadsBelow (m : Likeness) (bound : Nat) (read read' : Goal → Parse SyntaxNode) :
    Prop where
  expression : ∀ (above : Power) {s s' : TokenStream}, Within m bound s s' →
    Reads m s.rest.length (SyntaxNode.Alike m.node) (read (.expression above))
      (read' (.expression above)) s s'
  form : ∀ (form : Form) {s s' : TokenStream}, Within m bound s s' →
    form.startsAt s.current.kind = true →
      Reads m s.rest.length (SyntaxNode.Alike m.node) (read (.form form)) (read' (.form form)) s s'
  suffix : ∀ {suffix : Suffix} {left left' : SyntaxNode} {power : Power} {s s' : TokenStream},
    Within m bound s s' → left.Alike m.node left' →
      Grammar.standard.suffix s.current.kind = some (power, suffix) →
        Reads m s.rest.length (SyntaxNode.Alike m.node) (read (.suffix suffix left power))
          (read' (.suffix suffix left' power)) s s'

namespace ReadsBelow

variable {read read' : Goal → Parse SyntaxNode}

/-- Readers of phrases that go together within a bound do so within a smaller one. -/
theorem mono (h : ReadsBelow m more read read') (hle : bound ≤ more) :
    ReadsBelow m bound read read' where
  expression above _ _ hs := h.expression above (hs.mono hle)
  form form _ _ hs hstarts := h.form form (hs.mono hle) hstarts
  suffix hs hleft hstarts := h.suffix (hs.mono hle) hleft hstarts

/-- Expressions inside of a phrase go together. -/
theorem operand (h : ReadsBelow m bound read read') (above : Power) (hs : Within m bound s s') :
    Reads m bound (SyntaxNode.Alike m.node) (read (.expression above))
      (read' (.expression above)) s s' :=
  (h.expression above hs).mono (Nat.le_of_lt hs.less)

/-- So do blocks. -/
theorem block (h : ReadsBelow m bound read read') (hs : Within m bound s s') :
    Reads m bound (SyntaxNode.Alike m.node) (read (.form .block)) (read' (.form .block)) s s' :=
  (h.form .block hs rfl).mono (Nat.le_of_lt hs.less)

end ReadsBelow

section Readers

variable {read read' : Goal → Parse SyntaxNode} {left left' : SyntaxNode} {power : Power}

/-! ## Expressions -/

/-- The same suffix is found on both sides. -/
theorem suffixAbove_reads (hp : Parser.Alike m p p') (above : Power) (hs : Within m bound s s') :
    Abreast m.failure (suffixAbove p above) (suffixAbove p' above) s s'
      fun found after found' after' => found' = found ∧ after = s ∧ after' = s' ∧
        GoesOn above s.current.kind found := by
  have hgoes : OnSuccess (suffixAbove p above) s fun found after =>
      after = s ∧ GoesOn above s.current.kind found := suffixAbove_onSuccess hp.grammar above
  have hpair : Abreast m.failure (suffixAbove p above) (suffixAbove p' above) s s'
      fun found after found' after' => found' = found ∧ after = s ∧ after' = s' := by
    refine currentKind_bind_abreast hp hs.alike ?_
    rw [hp.grammar, hp.grammar']
    split
    · split
      · exact .pure ⟨rfl, rfl, rfl⟩
      · exact .pure ⟨rfl, rfl, rfl⟩
    · exact .pure ⟨rfl, rfl, rfl⟩
  refine (hpair.and_left hgoes).mono fun found after found' after' h => ?_
  exact ⟨h.2.1, h.2.2.1, h.2.2.2, h.1.2⟩

/-- Suffixes are taken as long as they bind tightly enough. -/
theorem extend_reads (hp : Parser.Alike m p p') (hread : ReadsBelow m bound read read')
    (above : Power) {limit limit' : Nat} (hlimits : limit = limit')
    (hlimit : s.rest.length < limit) (hs : Within m bound s s') (hleft : left.Alike m.node left') :
    Reads m bound (SyntaxNode.Alike m.node) (extend p read above limit left)
      (extend p' read' above limit' left') s s' := by
  subst hlimits
  induction limit generalizing s s' left left' with
  | zero => exact absurd hlimit (Nat.not_lt_zero _)
  | succ limit ih =>
    refine Abreast.bind (suffixAbove_reads hp above hs) ?_
    rintro _ _ found _ ⟨rfl, rfl, rfl, hgoes⟩
    cases found with
    | none => exact Reads.pure hleft hs
    | some entry =>
      refine (hread.suffix hs hleft hgoes.1).bind fun node node' t t' hnode ht => ?_
      have hless := ht.less
      exact ih (by omega) (ht.mono (Nat.le_of_lt hs.less)) hnode

/-- An expression, over readers of the phrases that it may start with. -/
theorem expression_reads (hp : Parser.Alike m p p') (above : Power) (hs : s.Alike m s')
    (hread : ReadsBelow m s.rest.length read read')
    (hform : ∀ form : Form, Grammar.standard.expression s.current.kind = some form →
      Reads m s.rest.length (SyntaxNode.Alike m.node) (read (.form form)) (read' (.form form))
        s s') :
    Reads m s.rest.length (SyntaxNode.Alike m.node) (p.expression read above)
      (p'.expression read' above) s s' := by
  refine currentKind_reads hp hs ?_
  rw [hp.grammar, hp.grammar']
  cases hstarts : Grammar.standard.expression s.current.kind with
  | none => exact unexpected_reads hp hs
  | some form =>
    refine (hform form hstarts).bind fun left left' t t' hleft ht => ?_
    exact extend_reads hp hread above (congrArg (· + 1) ht.alike.rest.length_eq)
      (Nat.lt_succ_self _) ht hleft

/-- Words and numbers are taken on both sides. -/
theorem primary_reads (hp : Parser.Alike m p p') (hs : s.Alike m s') :
    Reads m s.rest.length (SyntaxNode.Alike m.node) p.primary p'.primary s s' := by
  refine currentKind_reads hp hs ?_
  split
  case h_7 => exact unexpected_reads hp hs
  all_goals
    next hkind =>
      exact leaf_reads hp hs (by rw [hkind]; rfl) rfl

/-- Operators in front are taken on both sides, and then their operands. -/
theorem unary_reads (hp : Parser.Alike m p p') (hs : s.Alike m s')
    (hread : ReadsBelow m s.rest.length read read')
    (hstarts : Form.unary.startsAt s.current.kind = true) :
    Reads m s.rest.length (SyntaxNode.Alike m.node) (unary read) (unary read') s s' := by
  have hvisible : s.current.kind.isVisible = true := by
    simp only [Form.startsAt, Bool.or_eq_true, decide_eq_true_eq] at hstarts
    rcases hstarts with hkind | hkind <;> rw [hkind] <;> rfl
  refine currentKind_reads hp hs ?_
  refine (leaf_reads hp hs hvisible rfl).bind fun operator operator' t t' hoperator ht => ?_
  refine (hread.operand _ ht).bind fun operand operand' u u' hoperand hu => ?_
  exact branch_reads hp rfl (.cons hoperator (.cons hoperand .nil)) hu

/-- A comprehension of which the opening bracket and the result are read. -/
theorem comprehensionTail_reads (hp : Parser.Alike m p p')
    (hread : ReadsBelow m bound read read') {kind : SyntaxKind} (hkind : kind.isLeaf = false)
    {opening opening' result result' : SyntaxNode} (hopening : opening.Alike m.node opening')
    (hresult : result.Alike m.node result') (hs : Within m bound s s') :
    Reads m bound (SyntaxNode.Alike m.node) (comprehensionTail p read kind opening result)
      (comprehensionTail p' read' kind opening' result') s s' := by
  refine (expectLeaf_reads hp hs rfl rfl).bind fun _ _ s₁ _ hfor h₁ => ?_
  refine (expectLeaf_reads hp h₁ rfl rfl).bind fun _ _ s₂ _ hitem h₂ => ?_
  refine (expectLeaf_reads hp h₂ rfl rfl).bind fun _ _ s₃ _ hin h₃ => ?_
  refine (hread.operand .ternary h₃).bind fun _ _ s₄ _ hiterable h₄ => ?_
  refine (optionally_reads hp h₄ fun hif => ?_).bind fun _ _ s₅ _ hfilter h₅ => ?_
  · refine (leafOf_reads hp h₄ (of_decide_eq_true hif) rfl rfl).bind fun _ _ _ _ hword h₅ => ?_
    refine (hread.operand .ternary h₅).bind fun _ _ _ _ hcondition h₆ => ?_
    exact .pure (.cons hword (.cons hcondition .nil)) h₆
  · refine currentKind_reads hp h₅.alike ?_
    split
    · next hclosing =>
      have hvisible : s₅.current.kind.isVisible = true := by
        revert hclosing
        cases s₅.current.kind <;>
          simp [TokenKind.isClosing, TokenKind.isVisible, TokenKind.isLayout]
      refine (leafOf_reads hp h₅ rfl hvisible rfl).bind fun _ _ _ _ hbracket h₆ => ?_
      have hfirst : m.nodes [_, _, _, _, _, _] [_, _, _, _, _, _] := .cons hopening
        (.cons hresult (.cons hfor (.cons hitem (.cons hin (.cons hiterable .nil)))))
      have hrow := List.rel_append (List.rel_append hfirst hfilter) (.cons hbracket .nil)
      exact branch_reads hp hkind hrow h₆
    · exact unexpectedBecause_reads hp h₅.alike _

/-- Parentheses open the same form on both sides. -/
theorem grouping_reads (hp : Parser.Alike m p p') (hs : s.Alike m s')
    (hread : ReadsBelow m s.rest.length read read')
    (hkind : s.current.kind = .openParen) :
    Reads m s.rest.length (SyntaxNode.Alike m.node) (grouping p read) (grouping p' read') s s' := by
  refine (leaf_reads hp hs (hkind ▸ rfl) rfl).bind fun _ _ _ _ hopening h₁ => ?_
  refine (hread.operand .lowest h₁).bind fun _ _ _ _ hinner h₂ => ?_
  refine currentKind_reads hp h₂.alike ?_
  split
  · exact comprehensionTail_reads hp hread rfl hopening hinner h₂
  · refine (optionalMark_reads hp h₂ rfl).bind fun _ _ _ _ hclosing h₃ => ?_
    exact branch_reads hp rfl (.cons hopening (.cons hinner hclosing)) h₃

/-- The elements of a list behind the first one. -/
theorem element_reads (hp : Parser.Alike m p p') (hs : s.Alike m s')
    (hread : ReadsBelow m s.rest.length read read') (hkind : s.current.kind = .comma) :
    Reads m s.rest.length m.nodes
      (do
        let comma ← leaf .punctuation
        let element ← optionally (· ≠ .closeBracket) do return [← read (.expression .lowest)]
        return comma :: element)
      (do
        let comma ← leaf .punctuation
        let element ← optionally (· ≠ .closeBracket) do return [← read' (.expression .lowest)]
        return comma :: element) s s' := by
  refine (leaf_reads hp hs (hkind ▸ rfl) rfl).bind fun _ _ _ _ hcomma h₁ => ?_
  refine (optionally_reads hp h₁ fun _ => (hread.operand .lowest h₁).single).bind
    fun _ _ _ _ helement h₂ => ?_
  exact .pure (.cons hcomma helement) h₂

/-- So do brackets. -/
theorem array_reads (hp : Parser.Alike m p p') (hs : s.Alike m s')
    (hread : ReadsBelow m s.rest.length read read')
    (hkind : s.current.kind = .openBracket) :
    Reads m s.rest.length (SyntaxNode.Alike m.node) (array p read) (array p' read') s s' := by
  refine (leaf_reads hp hs (hkind ▸ rfl) rfl).bind fun _ _ _ _ hopening h₁ => ?_
  refine currentKind_reads hp h₁.alike ?_
  split
  · next hclose =>
    refine (leafOf_reads hp h₁ hclose rfl rfl).bind fun _ _ _ _ hclosing h₂ => ?_
    exact branch_reads hp rfl (.cons hopening (.cons hclosing .nil)) h₂
  · refine (hread.operand .lowest h₁).bind fun _ _ _ _ hfirst h₂ => ?_
    refine currentKind_reads hp h₂.alike ?_
    split
    · exact comprehensionTail_reads hp hread rfl hopening hfirst h₂
    · refine repeatWhile_bind hp h₂ (fun t t' ht hcomma => ?_) fun _ _ _ _ hmore h₃ _ => ?_
      · exact element_reads hp ht.alike (hread.mono (Nat.le_of_lt ht.less))
          (of_decide_eq_true hcomma)
      · refine (optionalMark_reads hp h₃ rfl).bind fun _ _ _ _ hclosing h₄ => ?_
        exact branch_reads hp rfl (.cons hopening (.cons hfirst (List.rel_append hmore hclosing)))
          h₄

/-- So do curly brackets. -/
theorem set_reads (hp : Parser.Alike m p p') (hs : s.Alike m s')
    (hread : ReadsBelow m s.rest.length read read') (hkind : s.current.kind = .openCurly) :
    Reads m s.rest.length (SyntaxNode.Alike m.node) (set p read) (set p' read') s s' := by
  refine (leaf_reads hp hs (hkind ▸ rfl) rfl).bind fun _ _ _ _ hopening h₁ => ?_
  refine (hread.operand .lowest h₁).bind fun _ _ _ _ hresult h₂ => ?_
  refine currentKind_reads hp h₂.alike ?_
  split
  · exact comprehensionTail_reads hp hread rfl hopening hresult h₂
  · exact unexpectedBecause_reads hp h₂.alike _

/-- Arguments go together one by one. -/
theorem argList_reads (hp : Parser.Alike m p p') (hs : s.Alike m s')
    (hread : ReadsBelow m s.rest.length read read') :
    Reads m s.rest.length (SyntaxNode.Alike m.node) (argList p read) (argList p' read') s s' := by
  refine (expectLeaf_takes hp hs rfl rfl).bind fun _ _ _ _ hopening h₁ => ?_
  refine repeatWhile_bind hp h₁ (fun t t' ht _ => ?_) fun _ _ _ _ harguments h₂ _ => ?_
  · refine currentKind_reads hp ht.alike ?_
    split
    · next hcomma => exact (leaf_reads hp ht.alike (hcomma ▸ rfl) rfl).single
    · exact (hread.expression .lowest ht).single
  · refine (expectLeaf_reads hp h₂ rfl rfl).bind fun _ _ _ _ hclosing h₃ => ?_
    exact branch_reads hp rfl (.cons hopening (List.rel_append harguments (.cons hclosing .nil))) h₃

/-! ## Suffixes -/

/-- Binary operators are taken on both sides, and then their right operands. -/
theorem binary_reads (hp : Parser.Alike m p p') (hs : s.Alike m s')
    (hread : ReadsBelow m s.rest.length read read') (hleft : left.Alike m.node left')
    (hvisible : s.current.kind.isVisible = true) :
    Reads m s.rest.length (SyntaxNode.Alike m.node) (binary read left power)
      (binary read' left' power) s s' := by
  refine (leaf_reads hp hs hvisible rfl).bind fun _ _ _ _ hoperator h₁ => ?_
  refine (hread.operand power h₁).bind fun _ _ _ _ hright h₂ => ?_
  exact branch_reads hp rfl (.cons hleft (.cons hoperator (.cons hright .nil))) h₂

/-- Conditionals behind alike expressions go together. -/
theorem conditional_reads (hp : Parser.Alike m p p') (hs : s.Alike m s')
    (hread : ReadsBelow m s.rest.length read read') (hleft : left.Alike m.node left')
    (hvisible : s.current.kind.isVisible = true) :
    Reads m s.rest.length (SyntaxNode.Alike m.node) (conditional p read left)
      (conditional p' read' left') s s' := by
  refine (leaf_reads hp hs hvisible rfl).bind fun _ _ _ _ hif h₁ => ?_
  refine (hread.operand .ternary h₁).bind fun _ _ _ _ hcondition h₂ => ?_
  refine (expectLeaf_reads hp h₂ rfl rfl).bind fun _ _ _ _ helse h₃ => ?_
  refine (hread.operand .lowest h₃).bind fun _ _ _ _ hotherwise h₄ => ?_
  exact branch_reads hp rfl
    (.cons hleft (.cons hif (.cons hcondition (.cons helse (.cons hotherwise .nil))))) h₄

/-- So do members. -/
theorem member_reads (hp : Parser.Alike m p p') (hs : s.Alike m s')
    (hleft : left.Alike m.node left') (hvisible : s.current.kind.isVisible = true) :
    Reads m s.rest.length (SyntaxNode.Alike m.node) (member p left) (member p' left') s s' := by
  refine (leaf_reads hp hs hvisible rfl).bind fun _ _ _ _ hdot h₁ => ?_
  refine (expectLeaf_reads hp h₁ rfl rfl).bind fun _ _ _ _ hproperty h₂ => ?_
  exact branch_reads hp rfl (.cons hleft (.cons hdot (.cons hproperty .nil))) h₂

/-- So do indices. -/
theorem index_reads (hp : Parser.Alike m p p') (hs : s.Alike m s')
    (hread : ReadsBelow m s.rest.length read read') (hleft : left.Alike m.node left')
    (hvisible : s.current.kind.isVisible = true) :
    Reads m s.rest.length (SyntaxNode.Alike m.node) (index read left) (index read' left') s s' := by
  refine (leaf_reads hp hs hvisible rfl).bind fun _ _ _ _ hopening h₁ => ?_
  refine repeatWhile_bind hp h₁ (fun t t' ht _ => ?_) fun _ _ _ _ hinside h₂ hstop => ?_
  · refine currentKind_reads hp ht.alike ?_
    split
    · next hmark =>
      have hmarked : t.current.kind.isVisible = true := by
        rcases hmark with hkind | hkind <;> rw [hkind] <;> rfl
      exact (leaf_reads hp ht.alike hmarked rfl).single
    · exact (hread.expression .lowest ht).single
  · have hclose := of_decide_eq_false hstop
    refine (leafOf_reads hp h₂ (not_not.mp hclose) rfl rfl).bind fun _ _ _ _ hclosing h₃ => ?_
    have hfirst : m.nodes [_, _] [_, _] := .cons hleft (.cons hopening .nil)
    have hrow := List.rel_append (List.rel_append hfirst hinside) (.cons hclosing .nil)
    exact branch_reads hp rfl hrow h₃

/-- So do calls. -/
theorem call_reads (hp : Parser.Alike m p p') (hs : s.Alike m s')
    (hread : ReadsBelow m s.rest.length read read') (hleft : left.Alike m.node left') :
    Reads m s.rest.length (SyntaxNode.Alike m.node) (call p read left) (call p' read' left')
      s s' := by
  refine (argList_reads hp hs hread).bind fun _ _ _ _ harguments h₁ => ?_
  exact branch_reads hp rfl (.cons hleft (.cons harguments .nil)) h₁

/-! ## Statements -/

/-- Types behind a marker go together. -/
theorem typeDef_reads (hp : Parser.Alike m p p') (hs : Within m bound s s')
    (hread : ReadsBelow m bound read read') {marker : TokenKind}
    (hvisible : marker.isVisible = true) :
    Reads m bound (SyntaxNode.Alike m.node) (typeDef p read marker) (typeDef p' read' marker)
      s s' := by
  refine (expectLeaf_reads hp hs hvisible rfl).bind fun _ _ _ _ hmark h₁ => ?_
  refine (hread.operand .lowest h₁).bind fun _ _ _ _ htype h₂ => ?_
  exact branch_reads hp rfl (.cons hmark (.cons htype .nil)) h₂

/-- A type that may be missing. -/
theorem optionalType_reads (hp : Parser.Alike m p p') (hs : Within m bound s s')
    (hread : ReadsBelow m bound read read') {marker : TokenKind}
    (hvisible : marker.isVisible = true) :
    Reads m bound m.nodes (optionally (· = marker) do return [← typeDef p read marker])
      (optionally (· = marker) do return [← typeDef p' read' marker]) s s' :=
  optionally_reads hp hs fun _ => (typeDef_reads hp hs hread hvisible).single

/-- The end of the line behind a statement. -/
theorem endLine_reads (hp : Parser.Alike m p p') {node node' : SyntaxNode}
    (hnode : node.Alike m.node node') (hs : Within m bound s s') :
    Reads m bound (SyntaxNode.Alike m.node) (do let _ ← p.expect .newline; return node)
      (do let _ ← p'.expect .newline; return node') s s' :=
  (expectLayout_reads hp hs rfl).bind fun _ _ _ _ _ h₁ => .pure hnode h₁

/-- A simple statement, over readers of its first expression. -/
theorem simpleStatement_reads (hp : Parser.Alike m p p')
    (hread : ReadsBelow m s.rest.length read read')
    (htarget : Reads m s.rest.length (SyntaxNode.Alike m.node) (read (.expression .lowest))
      (read' (.expression .lowest)) s s') :
    Reads m s.rest.length (SyntaxNode.Alike m.node) (simpleStatement p read)
      (simpleStatement p' read') s s' := by
  have hbranch {kind : SyntaxKind} {nodes nodes' : List SyntaxNode} (hkind : kind.isLeaf = false)
      (hnodes : m.nodes nodes nodes') :
      (SyntaxNode.branch kind nodes).Alike m.node (.branch kind nodes') :=
    .branch hnodes (hp.branch hkind hnodes)
  refine htarget.bind fun _ _ s₁ _ htarget h₁ => ?_
  refine currentKind_reads hp h₁.alike ?_
  split
  · refine (typeDef_reads hp h₁ hread rfl).bind fun _ _ _ _ htype h₂ => ?_
    refine (optionally_reads hp h₂ fun hassign => ?_).bind fun _ _ _ _ hvalue h₃ => ?_
    · refine (leafOf_reads hp h₂ (of_decide_eq_true hassign) rfl rfl).bind
        fun _ _ _ _ hmark h₃ => ?_
      refine (hread.operand .lowest h₃).bind fun _ _ _ _ hvalue h₄ => ?_
      exact .pure (.cons hmark (.cons hvalue .nil)) h₄
    · exact endLine_reads hp (hbranch rfl (.cons htarget (.cons htype hvalue))) h₃
  · next hassign =>
    refine (leafOf_reads hp h₁ hassign rfl rfl).bind fun _ _ _ _ hmark h₂ => ?_
    refine (hread.operand .lowest h₂).bind fun _ _ _ _ hvalue h₃ => ?_
    exact endLine_reads hp (hbranch rfl (.cons htarget (.cons hmark (.cons hvalue .nil)))) h₃
  · exact endLine_reads hp (hbranch rfl (.cons htarget .nil)) h₁

/-- A statement, over readers of the phrases that it may start with. -/
theorem statement_reads (hp : Parser.Alike m p p') (hs : s.Alike m s')
    (hread : ReadsBelow m s.rest.length read read')
    (hform : ∀ form : Form, Grammar.standard.statement s.current.kind = some form →
      Reads m s.rest.length (SyntaxNode.Alike m.node) (read (.form form)) (read' (.form form)) s s')
    (htarget : Reads m s.rest.length (SyntaxNode.Alike m.node) (read (.expression .lowest))
      (read' (.expression .lowest)) s s') :
    Reads m s.rest.length (SyntaxNode.Alike m.node) (statement p read) (statement p' read')
      s s' := by
  refine currentKind_reads hp hs ?_
  rw [hp.grammar, hp.grammar']
  cases hstarts : Grammar.standard.statement s.current.kind with
  | none => exact simpleStatement_reads hp hread htarget
  | some form => exact hform form hstarts

/-- A block, over readers of the statement that it may start with. -/
theorem block_reads (hp : Parser.Alike m p p') (hs : s.Alike m s')
    (hstatement : ∀ t t', Within m (s.rest.length + 1) t t' → Reads m t.rest.length
      (SyntaxNode.Alike m.node) (read (.form .statement)) (read' (.form .statement)) t t') :
    Reads m s.rest.length (SyntaxNode.Alike m.node) (block p read) (block p' read') s s' := by
  have hfirst : Within m (s.rest.length + 1) s s' := ⟨hs, Nat.lt_succ_self _⟩
  refine (optionalMark_reads hp hfirst rfl).bind fun _ _ s₁ _ hcolon h₁ => ?_
  have hless := h₁.less
  refine currentKind_reads hp h₁.alike ?_
  split
  · next hline =>
    have heof : s₁.current.kind ≠ .eof := fun heof => nomatch hline.symm.trans heof
    refine (advance_reads h₁.alike heof).bind fun _ _ _ _ _ h₂ => ?_
    have h₂' := h₂.mono (Nat.lt_succ_iff.mp hless)
    refine (expectLayout_reads hp h₂' rfl).bind fun _ _ _ _ _ h₃ => ?_
    refine repeatWhile_bind hp h₃ (fun t t' ht _ => ?_) fun _ _ _ _ hstatements h₄ _ => ?_
    · exact (hstatement t t' (ht.mono (Nat.le_succ _))).single
    · refine (expectLayout_reads hp h₄ rfl).bind fun _ _ _ _ _ h₅ => ?_
      exact branch_reads hp rfl (List.rel_append hcolon hstatements) h₅
  · refine ((hstatement _ _ h₁).mono (Nat.lt_succ_iff.mp hless)).bind
      fun _ _ _ _ hstatement h₂ => ?_
    exact branch_reads hp rfl (List.rel_append hcolon (.cons hstatement .nil)) h₂

/-- The last branch is there on both sides, or on none. -/
theorem elsePart_reads (hp : Parser.Alike m p p') (hs : Within m bound s s')
    (hread : ReadsBelow m bound read read') :
    Reads m bound m.nodes (elsePart read) (elsePart read') s s' := by
  refine optionally_reads hp hs fun helse => ?_
  refine (leafOf_reads hp hs (of_decide_eq_true helse) rfl rfl).bind fun _ _ _ _ hword h₁ => ?_
  refine (hread.block h₁).bind fun _ _ _ _ hbody h₂ => ?_
  exact .pure (.cons hword (.cons hbody .nil)) h₂

/-- A word, a condition and a block. -/
theorem branch_of_condition_reads (hp : Parser.Alike m p p') (hs : s.Alike m s')
    (hread : ReadsBelow m s.rest.length read read') (hvisible : s.current.kind.isVisible = true)
    {rel : α → β → Prop} {next : SyntaxNode → SyntaxNode → SyntaxNode → Parse α}
    {next' : SyntaxNode → SyntaxNode → SyntaxNode → Parse β}
    (hnext : ∀ word word' condition condition' body body' t t', word.Alike m.node word' →
      condition.Alike m.node condition' → body.Alike m.node body' → Within m s.rest.length t t' →
        Reads m s.rest.length rel (next word condition body) (next' word' condition' body') t t') :
    Reads m s.rest.length rel
      (do
        let word ← leaf .keyword
        let condition ← read (.expression .lowest)
        let body ← read (.form .block)
        next word condition body)
      (do
        let word ← leaf .keyword
        let condition ← read' (.expression .lowest)
        let body ← read' (.form .block)
        next' word condition body) s s' := by
  refine (leaf_reads hp hs hvisible rfl).bind fun _ _ _ _ hword h₁ => ?_
  refine (hread.operand .lowest h₁).bind fun _ _ _ _ hcondition h₂ => ?_
  refine (hread.block h₂).bind fun _ _ _ _ hbody h₃ => ?_
  exact hnext _ _ _ _ _ _ _ _ hword hcondition hbody h₃

/-- Conditionals go together branch by branch. -/
theorem ifStatement_reads (hp : Parser.Alike m p p') (hs : s.Alike m s')
    (hread : ReadsBelow m s.rest.length read read') (hkind : s.current.kind = .ifWord) :
    Reads m s.rest.length (SyntaxNode.Alike m.node) (ifStatement read) (ifStatement read')
      s s' := by
  refine branch_of_condition_reads hp hs hread (hkind ▸ rfl)
    fun _ _ _ _ _ _ _ _ hword hcondition hbody h₁ => ?_
  refine repeatWhile_bind hp h₁ (fun t t' ht helif => ?_) fun _ _ _ _ hmore h₂ _ => ?_
  · have hkind : t.current.kind = .elifWord := of_decide_eq_true helif
    refine branch_of_condition_reads hp ht.alike (hread.mono (Nat.le_of_lt ht.less))
      (hkind ▸ rfl) fun _ _ _ _ _ _ _ _ hword hcondition hbody h₃ => ?_
    exact .pure (.cons hword (.cons hcondition (.cons hbody .nil))) h₃
  · refine (elsePart_reads hp h₂ hread).bind fun _ _ _ _ hotherwise h₃ => ?_
    have hfirst : m.nodes [_, _, _] [_, _, _] := .cons hword (.cons hcondition (.cons hbody .nil))
    exact branch_reads hp rfl (List.rel_append (List.rel_append hfirst hmore) hotherwise) h₃

/-- Loops under conditions go together. -/
theorem whileStatement_reads (hp : Parser.Alike m p p') (hs : s.Alike m s')
    (hread : ReadsBelow m s.rest.length read read') (hkind : s.current.kind = .whileWord) :
    Reads m s.rest.length (SyntaxNode.Alike m.node) (whileStatement read) (whileStatement read')
      s s' :=
  branch_of_condition_reads hp hs hread (hkind ▸ rfl)
    fun _ _ _ _ _ _ _ _ hword hcondition hbody h₁ =>
      branch_reads hp rfl (.cons hword (.cons hcondition (.cons hbody .nil))) h₁

/-- Loops over elements go together. -/
theorem forStatement_reads (hp : Parser.Alike m p p') (hs : s.Alike m s')
    (hread : ReadsBelow m s.rest.length read read') (hkind : s.current.kind = .forWord) :
    Reads m s.rest.length (SyntaxNode.Alike m.node) (forStatement p read) (forStatement p' read')
      s s' := by
  refine (leaf_reads hp hs (hkind ▸ rfl) rfl).bind fun _ _ _ _ hword h₁ => ?_
  refine (expectLeaf_reads hp h₁ rfl rfl).bind fun _ _ _ _ hitem h₂ => ?_
  refine (expectLeaf_reads hp h₂ rfl rfl).bind fun _ _ _ _ hin h₃ => ?_
  refine (hread.operand .lowest h₃).bind fun _ _ _ _ hiterable h₄ => ?_
  refine (hread.block h₄).bind fun _ _ _ _ hbody h₅ => ?_
  refine (elsePart_reads hp h₅ hread).bind fun _ _ _ _ hotherwise h₆ => ?_
  have hfirst : m.nodes [_, _, _, _, _] [_, _, _, _, _] :=
    .cons hword (.cons hitem (.cons hin (.cons hiterable (.cons hbody .nil))))
  exact branch_reads hp rfl (List.rel_append hfirst hotherwise) h₆

/-- Returns go together, and both have a value or none has. -/
theorem returnStatement_reads (hp : Parser.Alike m p p') (hs : s.Alike m s')
    (hread : ReadsBelow m s.rest.length read read') (hkind : s.current.kind = .returnWord) :
    Reads m s.rest.length (SyntaxNode.Alike m.node) (returnStatement p read)
      (returnStatement p' read') s s' := by
  refine (leaf_reads hp hs (hkind ▸ rfl) rfl).bind fun _ _ _ _ hword h₁ => ?_
  refine (optionally_reads hp h₁ fun _ => (hread.operand .lowest h₁).single).bind
    fun _ _ _ _ hvalue h₂ => ?_
  have hrow := List.Forall₂.cons hword hvalue
  exact endLine_reads hp (.branch hrow (hp.branch rfl hrow)) h₂

/-- A statement of one word and the end of its line. -/
theorem wordStatement_reads (hp : Parser.Alike m p p') (hs : s.Alike m s') {kind : SyntaxKind}
    (hkind : kind.isLeaf = false) (hvisible : s.current.kind.isVisible = true) :
    Reads m s.rest.length (SyntaxNode.Alike m.node)
      (do
        let word ← leaf .keyword
        let _ ← p.expect .newline
        return .branch kind [word])
      (do
        let word ← leaf .keyword
        let _ ← p'.expect .newline
        return .branch kind [word]) s s' := by
  refine (leaf_reads hp hs hvisible rfl).bind fun _ _ _ _ hword h₁ => ?_
  have hrow := List.Forall₂.cons hword .nil
  exact endLine_reads hp (.branch hrow (hp.branch hkind hrow)) h₁

/-- Statements of one word are the same on both sides. -/
theorem keywordStatement_reads (hp : Parser.Alike m p p') (hs : s.Alike m s') :
    Reads m s.rest.length (SyntaxNode.Alike m.node) p.keywordStatement p'.keywordStatement
      s s' := by
  refine currentKind_reads hp hs ?_
  split
  · next hkind => exact wordStatement_reads hp hs rfl (by rw [hkind]; rfl)
  · next hkind => exact wordStatement_reads hp hs rfl (by rw [hkind]; rfl)
  · next hkind => exact wordStatement_reads hp hs rfl (by rw [hkind]; rfl)
  · exact unexpected_reads hp hs

/-- A parameter and the mark behind it. -/
theorem parameter_reads (hp : Parser.Alike m p p') (hs : s.Alike m s')
    (hread : ReadsBelow m s.rest.length read read') :
    Reads m s.rest.length m.nodes
      (do
        let name ← p.expectLeaf .identifier .variableName
        let type ← optionally (· = .colon) do return [← typeDef p read .colon]
        match ← currentKind with
        | .comma => return [name] ++ type ++ [← leaf .punctuation]
        | .closeParen => return [name] ++ type
        | _ => p.unexpectedBecause "expected `,` or `)` in parameter list")
      (do
        let name ← p'.expectLeaf .identifier .variableName
        let type ← optionally (· = .colon) do return [← typeDef p' read' .colon]
        match ← currentKind with
        | .comma => return [name] ++ type ++ [← leaf .punctuation]
        | .closeParen => return [name] ++ type
        | _ => p'.unexpectedBecause "expected `,` or `)` in parameter list") s s' := by
  refine (expectLeaf_takes hp hs rfl rfl).bind fun _ _ _ _ hname h₁ => ?_
  refine (optionalType_reads hp h₁ hread rfl).bind fun _ _ _ _ htype h₂ => ?_
  refine currentKind_reads hp h₂.alike ?_
  have hrow := List.Forall₂.cons hname htype
  split
  · next hcomma =>
    refine (leafOf_reads hp h₂ hcomma rfl rfl).bind fun _ _ _ _ hmark h₃ => ?_
    exact .pure (List.rel_append hrow (.cons hmark .nil)) h₃
  · exact .pure hrow h₂
  · exact unexpectedBecause_reads hp h₂.alike _

/-- Parameters go together one by one. -/
theorem paramList_reads (hp : Parser.Alike m p p') (hs : Within m bound s s')
    (hread : ReadsBelow m bound read read') :
    Reads m bound (SyntaxNode.Alike m.node) (paramList p read) (paramList p' read') s s' := by
  refine (expectLeaf_reads hp hs rfl rfl).bind fun _ _ _ _ hopening h₁ => ?_
  refine repeatWhile_bind hp h₁ (fun t t' ht _ => ?_) fun _ _ _ _ hparameters h₂ hstop => ?_
  · exact parameter_reads hp ht.alike (hread.mono (Nat.le_of_lt ht.less))
  · have hclose := not_not.mp (of_decide_eq_false hstop)
    refine (leafOf_reads hp h₂ hclose rfl rfl).bind fun _ _ _ _ hclosing h₃ => ?_
    exact branch_reads hp rfl (.cons hopening (List.rel_append hparameters (.cons hclosing .nil)))
      h₃

/-- Definitions of functions go together. -/
theorem functionDefinition_reads (hp : Parser.Alike m p p') (hs : s.Alike m s')
    (hread : ReadsBelow m s.rest.length read read') (hkind : s.current.kind = .defWord) :
    Reads m s.rest.length (SyntaxNode.Alike m.node) (functionDefinition p read)
      (functionDefinition p' read') s s' := by
  refine (leaf_reads hp hs (hkind ▸ rfl) rfl).bind fun _ _ _ _ hword h₁ => ?_
  refine (expectLeaf_reads hp h₁ rfl rfl).bind fun _ _ _ _ hname h₂ => ?_
  refine (paramList_reads hp h₂ hread).bind fun _ _ _ _ hparameters h₃ => ?_
  refine (optionalType_reads hp h₃ hread rfl).bind fun _ _ _ _ hresult h₄ => ?_
  refine (hread.block h₄).bind fun _ _ _ _ hbody h₅ => ?_
  have hfirst : m.nodes [_, _, _] [_, _, _] := .cons hword (.cons hname (.cons hparameters .nil))
  exact branch_reads hp rfl
    (List.rel_append (List.rel_append hfirst hresult) (.cons hbody .nil)) h₅

/-- So do definitions of classes. -/
theorem classDefinition_reads (hp : Parser.Alike m p p') (hs : s.Alike m s')
    (hread : ReadsBelow m s.rest.length read read') (hkind : s.current.kind = .classWord) :
    Reads m s.rest.length (SyntaxNode.Alike m.node) (classDefinition p read)
      (classDefinition p' read') s s' := by
  refine (leaf_reads hp hs (hkind ▸ rfl) rfl).bind fun _ _ _ _ hword h₁ => ?_
  refine (expectLeaf_reads hp h₁ rfl rfl).bind fun _ _ s₂ _ hname h₂ => ?_
  refine (optionally_reads hp h₂ fun _ => ?_).bind fun _ _ _ _ hbases h₃ => ?_
  · exact ((argList_reads hp h₂.alike (hread.mono (Nat.le_of_lt h₂.less))).mono
      (Nat.le_of_lt h₂.less)).single
  · refine (hread.block h₃).bind fun _ _ _ _ hbody h₄ => ?_
    have hfirst : m.nodes [_, _] [_, _] := .cons hword (.cons hname .nil)
    exact branch_reads hp rfl
      (List.rel_append (List.rel_append hfirst hbases) (.cons hbody .nil)) h₄

end Readers

/-! ## All phrases -/

/-- How many phrases may start inside one another at one token, below a phrase. -/
def Form.rank : Form → Nat
  | .statement => 2
  | .block => 3
  | _ => 0

/-- How many phrases may start inside one another at one token, below a phrase to be read. -/
def Goal.rank : Goal → Nat
  | .expression _ => 1
  | .form f => f.rank
  | .suffix .. => 0

/-- What a phrase may start with in a stream. -/
def Goal.StartsAt (goal : Goal) (kind : TokenKind) : Prop :=
  match goal with
  | .expression _ => True
  | .form f => f.startsAt kind = true
  | .suffix f _ power => Grammar.standard.suffix kind = some (power, f)

/-- Two goals ask for the same, behind expressions that are alike. -/
inductive Goal.Alike (m : Likeness) : Goal → Goal → Prop where
  | expression (above : Power) : Goal.Alike m (.expression above) (.expression above)
  | form (form : Form) : Goal.Alike m (.form form) (.form form)
  | suffix (suffix : Suffix) (power : Power) {left left' : SyntaxNode}
      (h : left.Alike m.node left') :
      Goal.Alike m (.suffix suffix left power) (.suffix suffix left' power)

/-- Two readers go together on all phrases and streams for which some steps suffice. -/
def ReadsWithin (m : Likeness) (steps : Nat) (read read' : Goal → Parse SyntaxNode) : Prop :=
  ∀ {goal goal' : Goal} {s s' : TokenStream}, Goal.Alike m goal goal' → s.Alike m s' →
    goal.StartsAt s.current.kind → 4 * s.rest.length + goal.rank < steps →
      Reads m s.rest.length (SyntaxNode.Alike m.node) (read goal) (read' goal') s s'

section Phrases

variable {read read' : Goal → Parse SyntaxNode} {steps : Nat}

/-- There are four ranks of phrases. -/
theorem Goal.rank_le (goal : Goal) : goal.rank ≤ 3 := by
  cases goal with
  | expression above => exact Nat.le_of_ble_eq_true rfl
  | form f => cases f <;> decide
  | suffix suffix left power => exact Nat.zero_le 3

/-- The form that starts an expression is of the lowest rank. -/
theorem rank_of_expression {kind : TokenKind} {form : Form}
    (h : Grammar.standard.expression kind = some form) : form.rank = 0 := by
  cases kind <;> cases h <;> rfl

/-- So is the form of a statement. -/
theorem rank_of_statement {kind : TokenKind} {form : Form}
    (h : Grammar.standard.statement kind = some form) : form.rank = 0 := by
  cases kind <;> cases h <;> rfl

/-- A token that starts a suffix shows. -/
theorem isVisible_of_suffix {kind : TokenKind} {power : Power} {suffix : Suffix}
    (h : Grammar.standard.suffix kind = some (power, suffix)) : kind.isVisible = true := by
  cases kind <;> first | rfl | nomatch h

/-- Where a token has been read, all phrases may be read in one step less. -/
theorem ReadsWithin.below (h : ReadsWithin m steps read read')
    (hsteps : 4 * s.rest.length ≤ steps) : ReadsBelow m s.rest.length read read' where
  expression above t t' ht := by
    have hless := ht.less
    exact h (.expression above) ht.alike trivial (by rw [Goal.rank]; omega)
  form form t t' ht hstarts := by
    have hless := ht.less
    have hrank := (Goal.form form).rank_le
    exact h (.form form) ht.alike hstarts (by omega)
  suffix {suffix left left' power t t'} ht hleft hstarts := by
    have hless := ht.less
    exact h (.suffix suffix power hleft) ht.alike hstarts (by rw [Goal.rank]; omega)

/-- Each phrase goes together with the same phrase on the other side, given that smaller ones do. -/
theorem rule_reads (hp : Parser.Alike m p p') {goal goal' : Goal}
    (hread : ReadsWithin m steps read read') (hgoal : Goal.Alike m goal goal')
    (hs : s.Alike m s') (hstarts : goal.StartsAt s.current.kind)
    (hsteps : 4 * s.rest.length + goal.rank < steps + 1) :
    Reads m s.rest.length (SyntaxNode.Alike m.node) (p.rule read goal) (p'.rule read' goal')
      s s' := by
  have hbelow : ReadsBelow m s.rest.length read read' := hread.below (by omega)
  cases hgoal with
  | expression above =>
    refine expression_reads hp above hs hbelow fun form hform => ?_
    refine hread (.form form) hs (startsAt_of_expression hform) ?_
    have hrank : (Goal.form form).rank = 0 := rank_of_expression hform
    rw [Goal.rank] at hsteps
    omega
  | suffix suffix power hleft =>
    have hvisible := isVisible_of_suffix hstarts
    cases suffix with
    | binary => exact binary_reads hp hs hbelow hleft hvisible
    | conditional => exact conditional_reads hp hs hbelow hleft hvisible
    | call => exact call_reads hp hs hbelow hleft
    | member => exact member_reads hp hs hleft hvisible
    | index => exact index_reads hp hs hbelow hleft hvisible
  | form form =>
    have hkind {kind : TokenKind} (h : decide (s.current.kind = kind) = true) :
        s.current.kind = kind := of_decide_eq_true h
    rw [Goal.rank] at hsteps
    cases form with
    | primary => exact primary_reads hp hs
    | unary => exact unary_reads hp hs hbelow hstarts
    | grouping => exact grouping_reads hp hs hbelow (hkind hstarts)
    | array => exact array_reads hp hs hbelow (hkind hstarts)
    | set => exact set_reads hp hs hbelow (hkind hstarts)
    | argList => exact argList_reads hp hs hbelow
    | statement =>
      rw [Form.rank] at hsteps
      refine statement_reads hp hs hbelow (fun form hform => ?_) ?_
      · refine hread (.form form) hs (startsAt_of_statement hform) ?_
        rw [Goal.rank, rank_of_statement hform]
        omega
      · exact hread (.expression .lowest) hs trivial (by rw [Goal.rank]; omega)
    | block =>
      rw [Form.rank] at hsteps
      refine block_reads hp hs fun t t' ht => ?_
      have hless := ht.less
      exact hread (.form .statement) ht.alike rfl (by rw [Goal.rank, Form.rank]; omega)
    | ifStatement => exact ifStatement_reads hp hs hbelow (hkind hstarts)
    | whileStatement => exact whileStatement_reads hp hs hbelow (hkind hstarts)
    | forStatement => exact forStatement_reads hp hs hbelow (hkind hstarts)
    | returnStatement => exact returnStatement_reads hp hs hbelow (hkind hstarts)
    | keywordStatement => exact keywordStatement_reads hp hs
    | functionDefinition => exact functionDefinition_reads hp hs hbelow (hkind hstarts)
    | classDefinition => exact classDefinition_reads hp hs hbelow (hkind hstarts)

/-- The readers of two parsers go together as far as both have enough steps. -/
theorem readWithin_reads (hp : Parser.Alike m p p') {allotted allotted' : Nat}
    (hle : steps ≤ allotted) (hle' : steps ≤ allotted') :
    ReadsWithin m steps (p.readWithin allotted) (p'.readWithin allotted') := by
  induction steps generalizing allotted allotted' with
  | zero => exact fun _ _ _ hsteps => absurd hsteps (Nat.not_lt_zero _)
  | succ steps ih =>
    intro goal goal' s s' hgoal hs hstarts hsteps
    obtain ⟨allotted, rfl⟩ : ∃ n, allotted = n + 1 := ⟨allotted - 1, by omega⟩
    obtain ⟨allotted', rfl⟩ : ∃ n, allotted' = n + 1 := ⟨allotted' - 1, by omega⟩
    exact rule_reads hp (ih (by omega) (by omega)) hgoal hs hstarts hsteps

/-- The steps allotted to a phrase suffice, and so do more of them. -/
theorem steps_lt_nesting (goal : Goal) (stream : TokenStream) :
    4 * stream.rest.length + goal.rank < nesting stream := by
  have hrank := goal.rank_le
  rw [nesting]
  omega

/-- The readers of two parsers go together on all phrases. -/
theorem read_reads (hp : Parser.Alike m p p') {goal goal' : Goal} (hgoal : Goal.Alike m goal goal')
    (hs : s.Alike m s') (hstarts : goal.StartsAt s.current.kind) :
    Reads m s.rest.length (SyntaxNode.Alike m.node) (p.read goal) (p'.read goal') s s' := by
  have hnesting : nesting s = nesting s' := by rw [nesting, nesting, hs.rest.length_eq]
  have hreads := readWithin_reads hp (Nat.le_refl _) (Nat.le_of_eq hnesting) hgoal hs hstarts
    (steps_lt_nesting goal s)
  unfold Reads Abreast at hreads ⊢
  unfold Parser.read
  exact hreads

end Phrases

/-! ## Token lists -/

/-- Statements up to the end of the file. -/
theorem script_abreast (hp : Parser.Alike m p p') (hs : s.Alike m s')
    (hscript : ∀ nodes nodes', m.nodes nodes nodes' →
      m.node ⟨.script, ⟨0, Source.byteSize p.source⟩, nodes⟩
        ⟨.script, ⟨0, Source.byteSize p'.source⟩, nodes'⟩) :
    Abreast m.failure p.script p'.script s s' fun tree _ tree' _ => tree.Alike m.node tree' := by
  refine Abreast.bind (repeatWhile_abreast hp ⟨hs, Nat.lt_succ_self _⟩ fun t t' ht _ =>
    (read_reads hp (.form .statement) ht.alike rfl).single) fun nodes _ nodes' _ h => ?_
  exact .pure (SyntaxNode.alike_iff.mpr ⟨rfl, hscript _ _ h.1.1, h.1.1⟩)

/-- Alike token lists are parsed to alike trees, or both are refused at tokens that go together. -/
theorem parse_alike {tokens tokens' : List Token} {source source' : Source}
    (hp : Parser.Alike m ⟨source, .standard⟩ ⟨source', .standard⟩)
    (htokens : List.Forall₂ m.token (TokenStream.complete tokens (Source.byteSize source))
      (TokenStream.complete tokens' (Source.byteSize source')))
    (hscript : ∀ nodes nodes', m.nodes nodes nodes' →
      m.node ⟨.script, ⟨0, Source.byteSize source⟩, nodes⟩
        ⟨.script, ⟨0, Source.byteSize source'⟩, nodes'⟩) :
    Outcome.Alike m.failure (SyntaxNode.Alike m.node) (parse tokens source)
      (parse tokens' source') := by
  obtain ⟨hlist, hclosed⟩ := toList_ofTokens tokens (Source.byteSize source)
  obtain ⟨hlist', -⟩ := toList_ofTokens tokens' (Source.byteSize source')
  have hstream : (TokenStream.ofTokens tokens (Source.byteSize source)).Alike m
      (TokenStream.ofTokens tokens' (Source.byteSize source')) :=
    ⟨by rwa [hlist, hlist'], hclosed⟩
  exact Outcome.Alike.bind (script_abreast hp hstream hscript) fun _ _ htree => .ok htree

end Offside
