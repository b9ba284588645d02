import Offside.Proofs.Parsing.AlikeTokens

/-!
# Reading without a limit

A phrase is read by its rule, which asks for smaller phrases: fewer tokens are left for them, or
they come below the phrase where they start at its own first token.  So the rules call one another
in an order that has an end.  The steps allotted to a phrase always suffice; with more of them, the
same is read, and the recursion of the rules holds without any steps being counted.

Main definitions:

- `Goal.work`: what goes down from a phrase to those that its rule asks for.
- `Loop`: the loops of the rules.
- `Advances`: every round of a loop takes a token.

Main results:

- Theorem `rule_eq_read`: a phrase is read by its rule over any reader of phrases of less work.
- Theorem `readWithin_eq_read`: a phrase is read in the same way however many steps more there are.
- Theorem `repeatWhile_eq`: a repetition whose rounds each take a token goes on without a limit.
-/

namespace Offside

open Offside.Parser Parse

/-! ## Phrases -/

/-- What goes down from a phrase that is to be read to the phrases that its rule asks for: a phrase
that starts behind a token counts less than any that start at it. -/
def Goal.work (goal : Goal) (stream : TokenStream) : Nat := 4 * stream.rest.length + goal.rank

/-- Two runs of a parser are the same. -/
def identical : Likeness where
  token := Eq
  node := Eq
  failure := Eq

variable {p : Parser} {s t : TokenStream} {α : Type} {goal : Goal} {read : Goal → Parse SyntaxNode}

/-- A parser of the standard grammar goes along with itself. -/
theorem alike_identical (hp : p.grammar = .standard) : Parser.Alike identical p p where
  grammar := hp
  grammar' := hp
  kind h := congrArg Token.kind h
  refuse := by
    rintro token _ reason rfl α β rel
    unfold Outcome.refuseAt
    cases Source.location? p.source token.span.start with
    | some location => exact .error rfl
    | none => exact .error rfl
  leaf h _ _ := congrArg (fun token : Token => SyntaxNode.leaf _ token.span) h
  branch {_ nodes nodes'} _ hnodes := by
    have hsame : List.Forall₂ Eq nodes nodes' := hnodes.imp fun _ _ hnode => hnode.root
    rw [List.forall₂_eq_eq_eq] at hsame
    exact congrArg _ hsame

/-- A stream is the same as itself. -/
theorem TokenStream.Closed.identical (h : s.Closed) : s.Alike identical s :=
  ⟨List.forall₂_same.mpr fun _ _ => rfl, h⟩

/-- Streams of the same tokens are the same. -/
theorem TokenStream.eq_of_toList (h : s.toList = t.toList) : s = t := by
  obtain ⟨hcurrent, hrest⟩ := List.cons.inj h
  cases s
  cases t
  rw [mk.injEq]
  exact ⟨hcurrent, hrest⟩

/-- Streams that are alike token by token, and equal at each, are the same. -/
theorem TokenStream.Alike.eq (h : s.Alike identical t) : s = t := by
  have htokens : List.Forall₂ Eq s.toList t.toList := h.tokens
  rw [List.forall₂_eq_eq_eq] at htokens
  exact eq_of_toList htokens

/-- Each phrase to be read is alike itself. -/
theorem Goal.alike_identical (goal : Goal) : Goal.Alike identical goal goal := by
  cases goal with
  | expression above => exact .expression above
  | form form => exact .form form
  | suffix suffix left power => exact .suffix suffix power left.alike_refl

/-- Two readers that run the same way read the same. -/
theorem Reads.eq_of_identical {bound : Nat} {reader reader' : Parse SyntaxNode}
    (h : Reads identical bound (SyntaxNode.Alike identical.node) reader reader' s s) :
    reader s = reader' s := by
  unfold Reads Abreast at h
  generalize reader s = outcome at h ⊢
  generalize reader' s = outcome' at h ⊢
  cases h with
  | error hfailure => exact congrArg Except.error hfailure
  | @ok entry entry' hentry =>
    rcases entry with ⟨node, after⟩
    rcases entry' with ⟨node', after'⟩
    obtain rfl : node = node' := hentry.1.root
    obtain rfl := hentry.2.alike.eq
    rfl

/-- Phrases to be read that are identical are the same. -/
theorem Goal.Alike.eq {goal' : Goal} (h : Goal.Alike identical goal goal') : goal = goal' := by
  cases h with
  | expression above => rfl
  | form form => rfl
  | suffix suffix power hleft => exact congrArg (Goal.suffix suffix · power) hleft.root

/-- However many steps more are allotted to a phrase, it is read in the same way. -/
theorem readWithin_eq_read (hp : p.grammar = .standard) (hs : s.Closed)
    (hstarts : goal.StartsAt s.current.kind) {steps : Nat} (hsteps : goal.work s < steps) :
    p.readWithin steps goal s = p.read goal s := by
  have hreads := readWithin_reads (alike_identical hp) (Nat.succ_le_of_lt hsteps)
    (Nat.succ_le_of_lt (steps_lt_nesting goal s)) goal.alike_identical hs.identical hstarts
    (Nat.lt_succ_self _)
  exact hreads.eq_of_identical

/-- A phrase is read by its rule, over any reader that reads phrases of less work in the same
way. -/
theorem rule_eq_read (hp : p.grammar = .standard) (hs : s.Closed)
    (hstarts : goal.StartsAt s.current.kind)
    (hread : ∀ smaller t, t.Closed → smaller.StartsAt t.current.kind →
      smaller.work t < goal.work s → read smaller t = p.read smaller t) :
    p.rule read goal s = p.read goal s := by
  have hp' := alike_identical hp
  have hreads : ReadsWithin identical (goal.work s) read (p.readWithin (goal.work s)) := by
    intro smaller smaller' t t' hsmaller ht hstarts hwork
    obtain rfl := ht.eq
    obtain rfl := hsmaller.eq
    have hsame : read smaller t = p.readWithin (goal.work s) smaller t := by
      rw [hread smaller t ht.closed hstarts hwork, readWithin_eq_read hp ht.closed hstarts hwork]
    have hself := readWithin_reads hp' (Nat.le_refl _) (Nat.le_refl _) smaller.alike_identical ht
      hstarts hwork
    unfold Reads Abreast at hself ⊢
    rw [hsame]
    exact hself
  have hrule := rule_reads hp' hreads goal.alike_identical hs.identical hstarts
    (Nat.lt_succ_self _)
  rw [hrule.eq_of_identical, ← readWithin_eq_read hp hs hstarts (Nat.lt_succ_self _)]
  rfl

/-! ## Loops -/

/-- The loops of the rules: the statements of a script and of a block, the branches of a
conditional, the arguments of a call, the parts of an index, the elements of a list and the
parameters of a function. -/
inductive Loop where
  | script
  | block
  | branches
  | arguments
  | parts
  | elements
  | parameters
  deriving DecidableEq, Repr

namespace Loop

/-- The tokens at which another round begins. -/
def passes : Loop → TokenKind → Bool
  | script => (· ≠ .eof)
  | block => fun kind => kind ≠ .dedent && kind ≠ .eof
  | branches => (· = .elifWord)
  | arguments | parameters => (· ≠ .closeParen)
  | parts => (· ≠ .closeBracket)
  | elements => (· = .comma)

/-- One round, over a reader of phrases. -/
def round (p : Parser) (read : Goal → Parse SyntaxNode) : Loop → Parse (List SyntaxNode)
  | script | block => do return [← read (.form .statement)]
  | branches => do
    let word ← leaf .keyword
    let condition ← read (.expression .lowest)
    let body ← read (.form .block)
    return [word, condition, body]
  | arguments => argument read
  | parts => part read
  | elements => element read
  | parameters => do
    let name ← p.expectLeaf .identifier .variableName
    let type ← optionally (· = .colon) do return [← p.typeDef read .colon]
    match ← currentKind with
    | .comma => return [name] ++ type ++ [← leaf .punctuation]
    | .closeParen => return [name] ++ type
    | _ => p.unexpectedBecause "expected `,` or `)` in parameter list"

/-- A loop, over a reader of phrases. -/
def run (p : Parser) (read : Goal → Parse SyntaxNode) (loop : Loop) : Parse (List SyntaxNode) :=
  repeatWhile loop.passes (loop.round p read)

end Loop

/-! ## Repetitions -/

/-- A stream ends with the end of the file, and has fewer tokens behind the current one than
`bound`. -/
structure TokenStream.Below (bound : Nat) (s : TokenStream) : Prop where
  closed : s.Closed
  less : s.rest.length < bound

section Repetitions

variable {passes : TokenKind → Bool} {item : Parse (List SyntaxNode)}

/-- Every round that succeeds leaves fewer tokens than there were. -/
def Advances (passes : TokenKind → Bool) (item : Parse (List SyntaxNode)) : Prop :=
  ∀ {s : TokenStream}, s.Closed → passes s.current.kind = true →
    OnSuccess item s fun _ after => after.Below s.rest.length

/-- If each round takes a token, it does not matter how many rounds there may be. -/
theorem rounds_eq (hitem : Advances passes item) (hs : s.Closed) {limit limit' : Nat}
    (hlimit : s.rest.length < limit) (hlimit' : s.rest.length < limit') :
    rounds passes item limit s = rounds passes item limit' s := by
  induction limit generalizing s limit' with
  | zero => exact absurd hlimit (Nat.not_lt_zero _)
  | succ limit ih =>
    obtain ⟨limit', rfl⟩ : ∃ n, limit' = n + 1 := ⟨limit' - 1, by omega⟩
    rw [rounds, rounds, Runs.bind_eq .currentKind, Runs.bind_eq .currentKind]
    split
    · next hpasses =>
      refine (hitem hs hpasses).bind_congr fun first t ht => ?_
      have hless := ht.less
      exact bind_eq_of_eq (ih ht.closed (by omega) (by omega)) _
    · rfl

/-- A repetition whose rounds each take a token goes on as long as the current token passes. -/
theorem repeatWhile_eq (hitem : Advances passes item) (hs : s.Closed) :
    repeatWhile passes item s =
      (do
        if passes (← currentKind) then
          let first ← item
          let more ← repeatWhile passes item
          return first ++ more
        else return [] : Parse (List SyntaxNode)) s := by
  rw [repeatWhile, rounds, Runs.bind_eq .currentKind, Runs.bind_eq .currentKind]
  split
  · next hpasses =>
    refine (hitem hs hpasses).bind_congr fun first t ht => bind_eq_of_eq ?_ _
    exact rounds_eq hitem ht.closed ht.less (Nat.lt_succ_self _)
  · rfl

/-- A repetition stops at a token that does not pass. -/
theorem repeatWhile_stops : OnSuccess (repeatWhile passes item) s fun _ after =>
    passes after.current.kind = false := by
  suffices h : ∀ limit (s : TokenStream), OnSuccess (rounds passes item limit) s fun _ after =>
      passes after.current.kind = false from h _ s
  intro limit
  induction limit with
  | zero =>
    intro s
    apply currentKind_onSuccess
    split
    · exact .throw trivial
    · next hpasses => exact .pure (Bool.eq_false_iff.mpr hpasses)
  | succ limit ih =>
    intro s
    apply currentKind_onSuccess
    split
    · refine (onSuccess_true item).bind fun first t _ => ?_
      exact (ih t).bind fun more u hstop => .pure hstop
    · next hpasses => exact .pure (Bool.eq_false_iff.mpr hpasses)

end Repetitions

/-! ## Suffixes -/

section Suffixes

variable {above : Power} {left : SyntaxNode}

/-- All suffixes above a power behind an expression. -/
def Parser.suffixes (p : Parser) (read : Goal → Parse SyntaxNode) (above : Power)
    (left : SyntaxNode) : Parse SyntaxNode := fun stream =>
  p.extend read above (stream.rest.length + 1) left stream

/-- Every suffix that is read leaves fewer tokens than there were. -/
def AdvancesOnSuffixes (read : Goal → Parse SyntaxNode) : Prop :=
  ∀ {s : TokenStream} {suffix : Suffix} {power : Power} (left : SyntaxNode), s.Closed →
    Grammar.standard.suffix s.current.kind = some (power, suffix) →
      OnSuccess (read (.suffix suffix left power)) s fun _ after => after.Below s.rest.length

/-- If each suffix takes a token, it does not matter how many suffixes there may be. -/
theorem extend_eq (hp : p.grammar = .standard) (hread : AdvancesOnSuffixes read) (hs : s.Closed)
    {limit limit' : Nat} (hlimit : s.rest.length < limit) (hlimit' : s.rest.length < limit') :
    p.extend read above limit left s = p.extend read above limit' left s := by
  induction limit generalizing s left limit' with
  | zero => exact absurd hlimit (Nat.not_lt_zero _)
  | succ limit ih =>
    obtain ⟨limit', rfl⟩ : ∃ n, limit' = n + 1 := ⟨limit' - 1, by omega⟩
    rw [extend, extend]
    refine (suffixAbove_onSuccess hp above).bind_congr ?_
    rintro found _ ⟨rfl, hfound⟩
    cases found with
    | none => rfl
    | some entry =>
      refine (hread left hs hfound.1).bind_congr fun node t ht => ?_
      have hless := ht.less
      exact ih ht.closed (by omega) (by omega)

/-- Suffixes are taken as long as they bind tightly enough. -/
theorem suffixes_eq (hp : p.grammar = .standard) (hread : AdvancesOnSuffixes read)
    (hs : s.Closed) :
    p.suffixes read above left s =
      (do
        match ← p.suffixAbove above with
        | some (power, suffix) => do p.suffixes read above (← read (.suffix suffix left power))
        | none => return left : Parse SyntaxNode) s := by
  rw [suffixes, extend]
  refine (suffixAbove_onSuccess hp above).bind_congr ?_
  rintro found _ ⟨rfl, hfound⟩
  cases found with
  | none => rfl
  | some entry =>
    refine (hread left hs hfound.1).bind_congr fun node t ht => ?_
    exact extend_eq hp hread ht.closed ht.less (Nat.lt_succ_self _)

end Suffixes
end Offside
