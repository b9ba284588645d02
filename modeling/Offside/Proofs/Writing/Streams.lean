import Offside.Proofs.Runs
import Offside.Syntax.Parser

/-!
# Reading token streams

What the readers of phrases do with a stream that is known for some tokens ahead: single
tokens, repetitions, and expressions with their suffixes.

Main definitions:

- `TokenStream.ahead`: a stream with known tokens before it.
- `ReadsTo`: an expression has been read so far, and suffixes may follow.

Main results:

- Theorems `ReadsTo.of_form`, `ReadsTo.with_suffix` and `ReadsTo.runs`: how an expression starts,
  goes on and ends.
-/

namespace Offside

/-! ## Streams -/

namespace TokenStream

/-- A stream with some tokens before it. -/
def ahead : List Token → TokenStream → TokenStream
  | [], after => after
  | token :: tokens, after => ⟨token, (ahead tokens after).toList⟩

/-- No tokens in front of a stream leave it as it is. -/
@[simp]
theorem ahead_nil (after : TokenStream) : ahead [] after = after := rfl

/-- The first of the tokens in front of a stream is its current one. -/
@[simp]
theorem current_ahead_cons (token : Token) (tokens : List Token) (after : TokenStream) :
    (ahead (token :: tokens) after).current = token := rfl

/-- Tokens may be put in front of a stream in two rows. -/
theorem ahead_append (tokens more : List Token) (after : TokenStream) :
    ahead (tokens ++ more) after = ahead tokens (ahead more after) := by
  induction tokens with
  | nil => rfl
  | cons token tokens ih =>
    rw [List.cons_append, ahead, ahead, ih]

/-- The tokens in front of a stream are its first ones. -/
theorem toList_ahead (tokens : List Token) (after : TokenStream) :
    (ahead tokens after).toList = tokens ++ after.toList := by
  induction tokens with
  | nil => rfl
  | cons token tokens ih =>
    rw [ahead, toList, ih]
    rfl

/-- They count for the tokens that are left. -/
theorem length_rest_ahead (tokens : List Token) (after : TokenStream) :
    (ahead tokens after).rest.length = tokens.length + after.rest.length := by
  have hlength := congrArg List.length (toList_ahead tokens after)
  rw [List.length_append, toList, toList, List.length_cons, List.length_cons] at hlength
  omega

/-- Tokens up to the end of the file are a stream with nothing behind them. -/
theorem ofTokens_eq {fileEnd : Token} (hend : fileEnd.kind = .eof) (tokens : List Token)
    (stop : Nat) : ofTokens (tokens ++ [fileEnd]) stop = ahead tokens ⟨fileEnd, []⟩ := by
  have hcomplete : complete (tokens ++ [fileEnd]) stop = tokens ++ [fileEnd] := by
    rw [complete, List.getLast?_concat, Option.map_some, hend, if_pos rfl]
  rw [ofTokens, hcomplete]
  cases tokens with
  | nil => rfl
  | cons token tokens =>
    rw [List.cons_append, ahead, toList_ahead]
    rfl

end TokenStream

open TokenStream (ahead)

/-! ## Tokens -/

namespace Runs

variable {token : Token} {tokens : List Token} {stream after last : TokenStream}
  {p : Parser} {kind : TokenKind} {leafKind : SyntaxKind} {passes : TokenKind → Bool}
  {item : Parse (List SyntaxNode)} {first more : List SyntaxNode}

/-- A look at the current kind takes no token. -/
theorem currentKind : Runs Parse.currentKind stream stream.current.kind stream := rfl

/-- So does a look at a kind that is known. -/
theorem currentKind_eq (h : stream.current.kind = kind) :
    Runs Parse.currentKind stream kind stream := by
  rw [← h]
  exact .currentKind

/-- The first token in front of a stream is taken. -/
theorem advance : Runs Parse.advance (ahead (token :: tokens) after) token (ahead tokens after) :=
  rfl

/-- So it is when it becomes a leaf. -/
theorem leaf : Runs (Parse.leaf leafKind) (ahead (token :: tokens) after)
    (.leaf leafKind token.span) (ahead tokens after) := rfl

/-- So it is when it is the one expected. -/
theorem expect (h : token.kind = kind) :
    Runs (p.expect kind) (ahead (token :: tokens) after) token (ahead tokens after) := by
  refine .bind (.currentKind_eq h) ?_
  rw [if_pos rfl]
  exact .advance

/-- So it is when the expected one becomes a leaf. -/
theorem expectLeaf (h : token.kind = kind) :
    Runs (p.expectLeaf kind leafKind) (ahead (token :: tokens) after)
      (.leaf leafKind token.span) (ahead tokens after) :=
  .bind (.expect h) (.pure _ _)

/-- A part that does not start here is left out. -/
theorem optionally_skip (h : passes stream.current.kind = false) :
    Runs (Parse.optionally passes item) stream [] stream := by
  refine .bind .currentKind ?_
  rw [h]
  exact .pure _ _

/-- A part that starts here is read. -/
theorem optionally_take (passes : TokenKind → Bool) (h : passes stream.current.kind = true)
    (hitem : Runs item stream first after) :
    Runs (Parse.optionally passes item) stream first after := by
  refine .bind .currentKind ?_
  rw [h, if_pos rfl]
  exact hitem

/-! ## Repetitions -/

/-- There is no round if none starts. -/
theorem rounds_nil (h : passes stream.current.kind = false) (limit : Nat) :
    Runs (Parse.rounds passes item limit) stream [] stream := by
  cases limit with
  | zero =>
    refine .bind .currentKind ?_
    rw [h]
    exact .pure _ _
  | succ limit =>
    refine .bind .currentKind ?_
    rw [h]
    exact .pure _ _

/-- A round that starts is read, and then the others. -/
theorem rounds_cons (passes : TokenKind → Bool) {limit : Nat}
    (h : passes stream.current.kind = true) (hitem : Runs item stream first after)
    (hmore : Runs (Parse.rounds passes item limit) after more last) :
    Runs (Parse.rounds passes item (limit + 1)) stream (first ++ more) last := by
  refine .bind .currentKind ?_
  rw [h, if_pos rfl]
  exact .bind hitem (.bind hmore (.pure _ _))

/-- The tokens that are left are a limit for the rounds. -/
theorem repeatWhile {limit : Nat} (hlimit : limit = stream.rest.length + 1)
    (h : Runs (Parse.rounds passes item limit) stream more last) :
    Runs (Parse.repeatWhile passes item) stream more last := by
  subst hlimit
  exact h

end Runs

/-! ## Rounds of loops -/

/-- One more element of a list, behind its comma. -/
def Parser.element (read : Goal → Parse SyntaxNode) : Parse (List SyntaxNode) := do
  let comma ← Parse.leaf .punctuation
  let element ← Parse.optionally (· ≠ .closeBracket) do return [← read (.expression .lowest)]
  return comma :: element

/-- One argument of a call, or a comma. -/
def Parser.argument (read : Goal → Parse SyntaxNode) : Parse (List SyntaxNode) := do
  if (← Parse.currentKind) = .comma then return [← Parse.leaf .punctuation]
  else return [← read (.expression .lowest)]

/-- One part of what stands in brackets behind an object, or a mark between two of them. -/
def Parser.part (read : Goal → Parse SyntaxNode) : Parse (List SyntaxNode) := do
  let kind ← Parse.currentKind
  if kind = .colon ∨ kind = .comma then return [← Parse.leaf .punctuation]
  else return [← read (.expression .lowest)]

/-! ## Expressions and their suffixes -/

/-- Reading an expression has come to a node, and suffixes may still follow; there is room
for as many of them as there are tokens. -/
def ReadsTo (p : Parser) (read : Goal → Parse SyntaxNode) (above : Power) (stream : TokenStream)
    (node : SyntaxNode) (after : TokenStream) : Prop :=
  ∃ limit, after.rest.length < limit ∧
    p.expression read above stream = p.extend read above limit node after

namespace ReadsTo

variable {p : Parser} {read : Goal → Parse SyntaxNode} {above power : Power}
  {stream middle after : TokenStream} {node left : SyntaxNode} {form : Form} {suffix : Suffix}

/-- An expression starts with what its first token starts. -/
theorem of_form (hform : p.grammar.expression stream.current.kind = some form)
    (h : Runs (read (.form form)) stream node after) : ReadsTo p read above stream node after := by
  refine ⟨after.rest.length + 1, Nat.lt_succ_self _, ?_⟩
  rw [Parser.expression, Runs.bind_eq .currentKind, hform]
  exact Runs.bind_eq h

/-- A suffix above the power is found. -/
theorem suffixAbove_some (hsuffix : p.grammar.suffix stream.current.kind = some (power, suffix))
    (habove : above.rank < power.rank) :
    Runs (p.suffixAbove above) stream (some (power, suffix)) stream := by
  refine .bind .currentKind ?_
  rw [hsuffix]
  simp only [if_pos habove]
  exact .pure _ _

/-- Where nothing binds tighter than the power, no suffix is found. -/
theorem suffixAbove_none (h : (p.grammar.power stream.current.kind).rank ≤ above.rank) :
    Runs (p.suffixAbove above) stream none stream := by
  refine .bind .currentKind ?_
  unfold Grammar.power at h
  rcases hsuffix : p.grammar.suffix stream.current.kind with _ | ⟨power, suffix⟩
  · exact .pure _ _
  · rw [hsuffix] at h
    simp only [if_neg (Nat.not_lt.mpr h)]
    exact .pure _ _

/-- A suffix that binds tightly enough continues the expression. -/
theorem with_suffix (hleft : ReadsTo p read above stream left middle)
    (hsuffix : p.grammar.suffix middle.current.kind = some (power, suffix))
    (habove : above.rank < power.rank)
    (h : Runs (read (.suffix suffix left power)) middle node after)
    (hlength : after.rest.length < middle.rest.length) :
    ReadsTo p read above stream node after := by
  rcases hleft with ⟨limit, hlimit, hread⟩
  obtain ⟨limit, rfl⟩ : ∃ n, limit = n + 1 := ⟨limit - 1, by omega⟩
  refine ⟨limit, by omega, ?_⟩
  rw [hread, Parser.extend, Runs.bind_eq (suffixAbove_some hsuffix habove)]
  exact Runs.bind_eq h

/-- The expression ends where no suffix binds tightly enough. -/
theorem runs (h : ReadsTo p read above stream node after)
    (hstop : (p.grammar.power after.current.kind).rank ≤ above.rank) :
    Runs (p.expression read above) stream node after := by
  rcases h with ⟨limit, hlimit, hread⟩
  obtain ⟨limit, rfl⟩ : ∃ n, limit = n + 1 := ⟨limit - 1, by omega⟩
  unfold Runs
  rw [hread, Parser.extend, Runs.bind_eq (suffixAbove_none hstop)]
  rfl

end ReadsTo

/-- What has been read as an expression starts with a token that starts one. -/
theorem starts_expression {p : Parser} {read : Goal → Parse SyntaxNode} {above : Power}
    {stream after : TokenStream} {node : SyntaxNode}
    (h : Runs (p.expression read above) stream node after) :
    ∃ form, p.grammar.expression stream.current.kind = some form := by
  rcases hform : p.grammar.expression stream.current.kind with _ | form
  · unfold Runs at h
    rw [Parser.expression, Runs.bind_eq .currentKind, hform] at h
    simp only [Parser.unexpected, Outcome.refuseAt] at h
    split at h <;> nomatch h
  · exact ⟨form, rfl⟩

end Offside
