import Offside.Proofs.Parsing.Invariants
import Offside.Proofs.Parsing.Leaves

/-!
# Precedence

Every node of a tree respects how tightly operators bind, and on which side they associate.
What carries the proof is a bound on the power of the token behind an expression: behind a sum
stands nothing that binds tighter than a sum, and behind `not b`, even if it is the right
operand of a product, stands nothing that binds tighter than `not`.

Main definitions:

- `Phrase.Respects`: a phrase respects precedence and associativity.
- `Phrase.reach`: the highest rank that a token behind a phrase can have.
- `precedence`: the invariant of expressions.

Main results:

- Theorem `precedence_kept`: all rules keep the invariant.
- Theorem `parse_respects`: all phrases of a tree respect precedence, and an expression is read
  up to a token that does not bind tighter than it may.
-/

namespace Offside
namespace Phrase

/-! ## What precedence asks for -/

/-- The power of the operator of a binary expression. -/
def operatorPower (phrase : Phrase) : Power :=
  match phrase.parts with
  | [_, operator, _] => Grammar.standard.power (nextKind operator.words)
  | _ => .lowest

/-- Whether a phrase is `not` with its operand. -/
def isNegation (phrase : Phrase) : Bool :=
  phrase.kind = .unaryExpression && nextKind phrase.words = .notWord

/-- Whether a phrase may be called, or asked for its members, without parentheses. -/
def isReceiver (phrase : Phrase) : Bool :=
  phrase.kind ≠ .binaryExpression && phrase.kind ≠ .unaryExpression &&
    phrase.kind ≠ .conditionalExpression

/-- No part of a binary expression is a conditional; to the left of its operator stands no
looser operator, and no `not` unless the operator is `and` or `or`; to the right stand only
operators that bind tighter. -/
def RespectsBinary (phrase : Phrase) : Prop :=
  ∃ left operator right power, phrase.parts = [left, operator, right] ∧
    Grammar.standard.suffix (nextKind operator.words) = some (power, .binary) ∧
    (∀ part ∈ phrase.parts, part.kind ≠ .conditionalExpression) ∧
    (left.kind = .binaryExpression → power.rank ≤ left.operatorPower.rank) ∧
    (left.isNegation = true → power = .logicalAnd ∨ power = .logicalOr) ∧
    (right.kind = .binaryExpression → power.rank < right.operatorPower.rank)

/-- The operand of a sign is no binary expression and no conditional; that of `not` is no
conditional, and its operator binds at least as tightly as a comparison. -/
def RespectsUnary (phrase : Phrase) : Prop :=
  ∃ operator operand, phrase.parts = [operator, operand] ∧
    operand.kind ≠ .conditionalExpression ∧
    (nextKind operator.words = .dash ∧ operand.kind ≠ .binaryExpression ∨
      nextKind operator.words = .notWord ∧ (operand.kind = .binaryExpression →
        Power.relational.rank ≤ operand.operatorPower.rank))

/-- The first operand and the condition of a conditional are no conditionals. -/
def RespectsConditional (phrase : Phrase) : Prop :=
  ∃ value ifWord condition elseWord otherwise,
    phrase.parts = [value, ifWord, condition, elseWord, otherwise] ∧
    value.kind ≠ .conditionalExpression ∧ condition.kind ≠ .conditionalExpression

/-- What is called, or asked for a member, is a receiver. -/
def RespectsReceiver (phrase : Phrase) : Prop :=
  ∃ receiver more, phrase.parts = receiver :: more ∧ receiver.isReceiver = true

/-- The iterable and the filter of a comprehension are no conditionals. -/
def RespectsComprehension (phrase : Phrase) : Prop :=
  ∃ opening result forWord item inWord iterable filter closing,
    phrase.parts = [opening, result, forWord, item, inWord, iterable] ++ filter ++ [closing] ∧
    iterable.kind ≠ .conditionalExpression ∧
    (filter = [] ∨ ∃ ifWord condition, filter = [ifWord, condition] ∧
      condition.kind ≠ .conditionalExpression)

/-- A phrase respects precedence and associativity. -/
def Respects (phrase : Phrase) : Prop :=
  match phrase.kind with
  | .binaryExpression => phrase.RespectsBinary
  | .unaryExpression => phrase.RespectsUnary
  | .conditionalExpression => phrase.RespectsConditional
  | .callExpression | .memberExpression => phrase.RespectsReceiver
  | .comprehensionExpression | .arrayComprehensionExpression | .setComprehensionExpression =>
    phrase.RespectsComprehension
  | _ => True

/-- All phrases in a phrase respect precedence. -/
def Sound (phrase : Phrase) : Prop := ∀ inner ∈ phrase.all, inner.Respects

/-! ## What stands behind an expression -/

/-- The highest rank that a token behind an expression can have. -/
def reach (phrase : Phrase) : Nat :=
  match phrase.kind with
  | .binaryExpression => phrase.operatorPower.rank
  | .unaryExpression =>
    if nextKind phrase.words = .notWord then Power.logicalNot.rank else Power.unary.rank
  | .conditionalExpression => Power.lowest.rank
  | _ => Power.primary.rank

/-- The token behind an expression does not bind tighter than this lets it. -/
def Settled (phrase : Phrase) (rest : List Token) : Prop :=
  (Grammar.standard.power (nextKind rest)).rank ≤ phrase.reach

/-- All suffixes at the end of an expression bind tighter than a power. -/
def Above (phrase : Phrase) (above : Power) : Prop :=
  (phrase.kind = .binaryExpression → above.rank < phrase.operatorPower.rank) ∧
    (phrase.kind = .conditionalExpression → above.rank < Power.ternary.rank)

end Phrase

/-- The kinds for which precedence asks for nothing. -/
def SyntaxKind.isFree : SyntaxKind → Bool
  | .binaryExpression | .unaryExpression | .conditionalExpression | .callExpression
  | .memberExpression | .comprehensionExpression | .arrayComprehensionExpression
  | .setComprehensionExpression => false
  | _ => true

/-- Whether a rule makes only nodes for which precedence asks for nothing. -/
def Rule.isFree : Rule → Bool
  | .leaf _ kind => kind.isFree
  | .both first second | .either first second => first.isFree && second.isFree
  | .many rule => rule.isFree
  | .node kind rule => kind.isFree && rule.isFree
  | .nothing | .layout _ | .expression _ | .operand _ | .form _ => true

/-- The forms that an expression starts with. -/
def Form.startsExpression : Form → Bool
  | .primary | .unary | .grouping | .array | .set => true
  | _ => false

/-- The invariant of expressions: everything in them respects precedence, their suffixes bind
tighter than they must, and the token behind them does not bind tighter than it may. -/
def precedence : Invariant where
  form shape phrases rest := (∀ phrase ∈ phrases, phrase.Sound) ∧
    (shape.startsExpression = true → ∀ phrase ∈ phrases, phrase.kind ≠ .binaryExpression ∧
      phrase.kind ≠ .conditionalExpression ∧ phrase.Settled rest)
  operand above phrase rest := phrase.Sound ∧ phrase.Above above ∧ phrase.Settled rest

/-! ## Powers -/

/-- No power is above that of a name. -/
theorem Power.rank_le_primary (power : Power) : power.rank ≤ Power.primary.rank := by
  cases power <;> decide

namespace Grammar

variable {kind : TokenKind} {power : Power} {suffix : Suffix}

/-- The power of a token is that of the suffix that it starts. -/
theorem power_of_suffix (h : standard.suffix kind = some (power, suffix)) :
    standard.power kind = power := by
  simp [Grammar.power, h]

/-- Operators bind looser than a sign. -/
theorem rank_binary_lt (h : standard.suffix kind = some (power, .binary)) :
    power.rank < Power.unary.rank := by
  cases kind <;> cases h <;> decide

/-- Operators bind tighter than a conditional. -/
theorem lt_rank_binary (h : standard.suffix kind = some (power, .binary)) :
    Power.ternary.rank < power.rank := by
  cases kind <;> cases h <;> decide

/-- The operators that do not bind tighter than `not` are `and` and `or`. -/
theorem binary_le_logicalNot (h : standard.suffix kind = some (power, .binary))
    (hle : power.rank ≤ Power.logicalNot.rank) : power = .logicalAnd ∨ power = .logicalOr := by
  cases kind <;> cases h <;> first | exact .inl rfl | exact .inr rfl | exact absurd hle (by decide)

/-- Only one power belongs to conditionals. -/
theorem power_conditional (h : standard.suffix kind = some (power, .conditional)) :
    power = .ternary := by
  cases kind <;> cases h
  rfl

/-- Calls and members bind tighter than a sign. -/
theorem unary_lt_receiver (h : standard.suffix kind = some (power, suffix))
    (hsuffix : suffix ≠ .binary) (hconditional : suffix ≠ .conditional) :
    Power.unary.rank < power.rank := by
  cases kind <;> cases h <;> first | decide | contradiction

end Grammar

namespace Phrase

variable {phrase : Phrase} {phrases : List Phrase} {above power : Power} {rest : List Token}
  {inv : Invariant}

/-! ## Phrases that respect precedence -/

/-- A binary expression that respects precedence has an operator that is one. -/
theorem respects_of_binary (h : phrase.Respects) (hkind : phrase.kind = .binaryExpression) :
    ∃ operator, Grammar.standard.suffix operator = some (phrase.operatorPower, .binary) := by
  rw [Respects, hkind] at h
  rcases h with ⟨left, operator, right, power, hparts, hsuffix, -⟩
  have hpower : phrase.operatorPower = power := by
    simp [operatorPower, hparts, Grammar.power_of_suffix hsuffix]
  exact ⟨nextKind operator.words, hpower ▸ hsuffix⟩

/-- A phrase that is sound respects precedence itself. -/
theorem Sound.respects (h : phrase.Sound) : phrase.Respects := h phrase phrase.mem_all_self

/-- A phrase is sound if its parts are and it respects precedence itself. -/
theorem sound_group {kind : SyntaxKind} (hexact : ∀ phrase ∈ phrases, phrase.Exact)
    (hrespects : (group kind phrases).Respects) (h : ∀ phrase ∈ phrases, phrase.Sound) :
    (group kind phrases).Sound := by
  intro inner hinner
  rw [all_group kind hexact] at hinner
  rcases List.mem_cons.mp hinner with rfl | hmem
  · exact hrespects
  · rcases List.mem_flatMap.mp hmem with ⟨phrase, hphrase, hin⟩
    exact h phrase hphrase inner hin

/-- Kinds of phrases of which nothing is asked respect precedence. -/
theorem respects_of_isFree (h : phrase.kind.isFree = true) : phrase.Respects := by
  unfold Respects
  split <;> simp_all [SyntaxKind.isFree]

/-- So do single tokens. -/
theorem sound_ofToken {kind : SyntaxKind} (h : kind.isFree = true) (token : Token) :
    (ofToken kind token).Sound := by
  intro inner hinner
  rw [all_ofToken, List.mem_singleton] at hinner
  subst hinner
  exact respects_of_isFree h

/-- Behind a receiver may stand any token. -/
theorem settled_of_isReceiver (h : phrase.isReceiver = true) (rest : List Token) :
    phrase.Settled rest := by
  have hreach : phrase.reach = Power.primary.rank := by
    unfold reach
    split <;> simp_all [isReceiver]
  rw [Settled, hreach]
  exact Power.rank_le_primary _

/-- What may be called without parentheses is above every power. -/
theorem above_of_isReceiver (h : phrase.isReceiver = true) (above : Power) :
    phrase.Above above := by
  constructor <;> intro hkind <;> simp [isReceiver, hkind] at h

/-- An expression behind which a call or a member may stand is a receiver. -/
theorem isReceiver_of_reach (h : phrase.Respects) (hreach : Power.unary.rank < phrase.reach) :
    phrase.isReceiver = true := by
  unfold reach at hreach
  split at hreach
  · next hkind =>
    rcases respects_of_binary h hkind with ⟨operator, hoperator⟩
    have hlt := Grammar.rank_binary_lt hoperator
    omega
  · split at hreach <;> exact absurd hreach (by decide)
  · exact absurd hreach (by decide)
  · simp_all [isReceiver]

/-- An expression behind which any suffix may stand is no conditional. -/
theorem ne_conditional_of_reach (hreach : Power.lowest.rank < phrase.reach) :
    phrase.kind ≠ .conditionalExpression := by
  intro hkind
  simp [reach, hkind] at hreach

/-- Behind a binary expression nothing binds tighter than its operator. -/
theorem reach_of_binary (h : phrase.kind = .binaryExpression) :
    phrase.reach = phrase.operatorPower.rank := by
  simp [reach, h]

/-- Behind `not` and its operand nothing binds tighter than `not`. -/
theorem reach_of_isNegation (h : phrase.isNegation = true) :
    phrase.reach = Power.logicalNot.rank := by
  rw [isNegation, Bool.and_eq_true, decide_eq_true_eq, decide_eq_true_eq] at h
  simp [reach, h.1, h.2]

/-- An expression without suffixes that bind as loosely as a conditional is none. -/
theorem Above.ne_conditional (h : phrase.Above above) (hle : Power.ternary.rank ≤ above.rank) :
    phrase.kind ≠ .conditionalExpression := by
  intro hkind
  have hlt := h.2 hkind
  omega

end Phrase

/-! ## Rules of the invariant -/

section Rules

variable {rule : Rule} {tokens rest : List Token} {phrases : List Phrase}

/-- A rule that makes only free nodes makes sound phrases of sound phrases. -/
theorem sound_of_fits (hfree : rule.isFree = true)
    (h : rule.Fits precedence tokens phrases rest) : ∀ phrase ∈ phrases, phrase.Sound := by
  induction rule generalizing tokens phrases rest with
  | nothing => simp [h.1]
  | leaf accepts kind =>
    rcases h with ⟨token, -, rfl, -⟩
    simpa using Phrase.sound_ofToken hfree token
  | layout kind =>
    rcases h with ⟨token, -, rfl, -⟩
    simp
  | expression above | operand above =>
    rcases h with ⟨phrase, rfl, h⟩
    simp_all [precedence]
  | form shape => exact h.1
  | both first second ihFirst ihSecond =>
    rcases h with ⟨before, middle, behind, hfirst, hsecond, rfl⟩
    rw [Rule.isFree, Bool.and_eq_true] at hfree
    intro phrase hmem
    rcases List.mem_append.mp hmem with hbefore | hbehind
    · exact ihFirst hfree.1 hfirst phrase hbefore
    · exact ihSecond hfree.2 hsecond phrase hbehind
  | either first second ihFirst ihSecond =>
    rw [Rule.isFree, Bool.and_eq_true] at hfree
    rcases h with hfirst | hsecond
    · exact ihFirst hfree.1 hfirst
    · exact ihSecond hfree.2 hsecond
  | many rule ih => exact h.forall_mem fun _ _ _ hone => ih hfree hone
  | node kind rule ih =>
    rcases h with ⟨parts, hexact, hparts, rfl⟩
    rw [Rule.isFree, Bool.and_eq_true] at hfree
    simpa using Phrase.sound_group hexact (Phrase.respects_of_isFree hfree.1) (ih hfree.2 hparts)

/-- A comprehension is sound. -/
theorem comprehension_sound {kind : SyntaxKind} {opening : TokenKind}
    (hkind : ∀ phrase : Phrase, phrase.kind = kind → phrase.RespectsComprehension →
      phrase.Respects)
    (h : (Rule.comprehension kind opening).Fits precedence tokens phrases rest) :
    ∀ phrase ∈ phrases, phrase.kind = kind ∧ phrase.Sound := by
  rcases h with ⟨parts, hexact, hrow, rfl⟩
  have hsound := sound_of_fits rfl hrow
  intro phrase hmem
  rw [List.mem_singleton.mp hmem]
  refine ⟨rfl, Phrase.sound_group hexact (hkind _ rfl ?_) hsound⟩
  rcases hrow with ⟨_, _, _, ⟨opening, -, rfl, -⟩, ⟨_, _, _, ⟨result, rfl, -⟩, ⟨_, _, _,
    ⟨forWord, -, rfl, -⟩, ⟨_, _, _, ⟨item, -, rfl, -⟩, ⟨_, _, _, ⟨inWord, -, rfl, -⟩, ⟨_, _, _,
    ⟨iterable, rfl, ⟨-, hiterable, -⟩, -⟩, ⟨filter, _, _, hfilter, ⟨_, _, _,
    ⟨closing, -, rfl, -⟩, ⟨rfl, -⟩, rfl⟩, rfl⟩, rfl⟩, rfl⟩, rfl⟩, rfl⟩, rfl⟩, rfl⟩
  refine ⟨_, _, _, _, _, iterable, filter, _, Phrase.parts_group _ hexact,
    hiterable.ne_conditional (Nat.le_refl _), ?_⟩
  rcases hfilter with ⟨_, _, _, ⟨ifWord, -, rfl, -⟩,
    ⟨_, _, _, ⟨condition, rfl, ⟨-, hcondition, -⟩, -⟩, ⟨rfl, -⟩, rfl⟩, rfl⟩ | ⟨rfl, -⟩
  · exact .inr ⟨_, condition, rfl, hcondition.ne_conditional (Nat.le_refl _)⟩
  · exact .inl rfl

/-- An operator word with its operand is sound, and settled by the operand. -/
theorem operation_sound {word : TokenKind} {power : Power}
    (hreach : (if word = .notWord then Power.logicalNot.rank else Power.unary.rank) = power.rank)
    (hoperand : ∀ operand : Phrase, operand.Respects → operand.Above power →
      operand.kind ≠ .conditionalExpression ∧
        (word = .dash ∧ operand.kind ≠ .binaryExpression ∨
          word = .notWord ∧ (operand.kind = .binaryExpression →
            Power.relational.rank ≤ operand.operatorPower.rank)))
    (h : (Rule.node .unaryExpression
      (.row [.leaf (· = word) .operator, .expression power])).Fits precedence tokens phrases rest) :
    ∀ phrase ∈ phrases, phrase.kind = .unaryExpression ∧ phrase.Sound ∧ phrase.Settled rest := by
  rcases h with ⟨parts, hexact, hrow, rfl⟩
  have hsound := sound_of_fits rfl hrow
  rcases hrow with ⟨_, _, _, ⟨operator, hword, rfl, -⟩, ⟨_, _, _,
    ⟨operand, rfl, ⟨hinner, habove, -⟩, hstop⟩, ⟨rfl, rfl⟩, rfl⟩, rfl⟩
  have hkind : operator.kind = word := of_decide_eq_true hword
  intro phrase hmem
  rw [List.mem_singleton.mp hmem]
  refine ⟨rfl, Phrase.sound_group hexact ?_ hsound, ?_⟩
  · have hasked := hoperand operand hinner.respects habove
    rw [← hkind] at hasked
    exact ⟨_, operand, Phrase.parts_group _ hexact, hasked⟩
  · rw [Phrase.Settled]
    apply Nat.le_trans hstop
    rw [← hreach, ← hkind]
    exact Nat.le_refl _

/-- An operator in front keeps the invariant: its operand was read above its power. -/
theorem unary_precedence (h : Form.unary.rule.Fits precedence tokens phrases rest) :
    precedence.form .unary phrases rest := by
  have hunary : ∀ phrase ∈ phrases, phrase.kind = .unaryExpression ∧ phrase.Sound ∧
      phrase.Settled rest := by
    rcases h with hnot | hdash
    · apply operation_sound rfl ?_ hnot
      intro operand _ habove
      exact ⟨habove.ne_conditional (by decide), .inr ⟨rfl, habove.1⟩⟩
    · apply operation_sound rfl ?_ hdash
      intro operand hrespects habove
      -- An operator in the operand of a sign would bind tighter than a sign, and none does.
      refine ⟨habove.ne_conditional (by decide), .inl ⟨rfl, fun hkind => ?_⟩⟩
      rcases Phrase.respects_of_binary hrespects hkind with ⟨operator, hoperator⟩
      have hlt := Grammar.rank_binary_lt hoperator
      have hgt := habove.1 hkind
      omega
  constructor
  · intro phrase hmem
    exact (hunary phrase hmem).2.1
  · intro _ phrase hmem
    obtain ⟨hkind, -, hsettled⟩ := hunary phrase hmem
    exact ⟨by simp [hkind], by simp [hkind], hsettled⟩

/-- The forms of expressions other than those with an operator give receivers. -/
theorem receiver_precedence {shape : Form} (hsound : ∀ phrase ∈ phrases, phrase.Sound)
    (hreceiver : ∀ phrase ∈ phrases, phrase.isReceiver = true) :
    precedence.form shape phrases rest := by
  refine ⟨hsound, fun _ phrase hmem => ?_⟩
  have hphrase := hreceiver phrase hmem
  have hsettled := Phrase.settled_of_isReceiver hphrase rest
  simp_all [Phrase.isReceiver]

/-- Words and numbers keep the invariant. -/
theorem primary_precedence (h : Form.primary.rule.Fits precedence tokens phrases rest) :
    precedence.form .primary phrases rest := by
  refine receiver_precedence (sound_of_fits rfl h) ?_
  rcases h with ⟨_, -, rfl, -⟩ | ⟨_, -, rfl, -⟩ | ⟨_, -, rfl, -⟩ | ⟨_, -, rfl, -⟩ |
    ⟨_, -, rfl, -⟩ <;> simp [Phrase.isReceiver]

/-- A comprehension is a receiver. -/
theorem comprehension_precedence {kind : SyntaxKind} {opening : TokenKind} {shape : Form}
    (hcomprehension : kind = .comprehensionExpression ∨ kind = .arrayComprehensionExpression ∨
      kind = .setComprehensionExpression)
    (h : (Rule.comprehension kind opening).Fits precedence tokens phrases rest) :
    precedence.form shape phrases rest := by
  have hrespects (phrase : Phrase) (hkind : phrase.kind = kind)
      (hasked : phrase.RespectsComprehension) : phrase.Respects := by
    rw [Phrase.Respects, hkind]
    rcases hcomprehension with rfl | rfl | rfl <;> exact hasked
  have hphrases := comprehension_sound hrespects h
  apply receiver_precedence
  · intro phrase hmem
    exact (hphrases phrase hmem).2
  · intro phrase hmem
    rw [Phrase.isReceiver, (hphrases phrase hmem).1]
    rcases hcomprehension with rfl | rfl | rfl <;> rfl

/-- A node for which precedence asks for nothing is a receiver. -/
theorem node_precedence {kind : SyntaxKind} {shape : Form} (hkind : kind.isFree = true)
    (hrule : rule.isFree = true)
    (h : (Rule.node kind rule).Fits precedence tokens phrases rest) :
    precedence.form shape phrases rest := by
  have hfree : (Rule.node kind rule).isFree = true := by simp [Rule.isFree, hkind, hrule]
  refine receiver_precedence (sound_of_fits hfree h) ?_
  rcases h with ⟨parts, -, -, rfl⟩
  simp only [List.mem_singleton, forall_eq, Phrase.isReceiver, Phrase.kind_group]
  cases kind <;> first | rfl | nomatch hkind

/-- What is in parentheses is bounded by them, whatever precedence it has inside. -/
theorem grouping_precedence (h : Form.grouping.rule.Fits precedence tokens phrases rest) :
    precedence.form .grouping phrases rest := by
  rcases h with hcomprehension | hnode
  · exact comprehension_precedence (.inl rfl) hcomprehension
  · exact node_precedence rfl rfl hnode

/-- So is what is in brackets. -/
theorem array_precedence (h : Form.array.rule.Fits precedence tokens phrases rest) :
    precedence.form .array phrases rest := by
  rcases h with hempty | hcomprehension | hnode | hcomma
  · exact node_precedence rfl rfl hempty
  · exact comprehension_precedence (.inr (.inl rfl)) hcomprehension
  · exact node_precedence rfl rfl hnode
  · exact node_precedence rfl rfl hcomma

/-- A form that no expression starts with. -/
theorem free_precedence {shape : Form} (hrule : shape.rule.isFree = true)
    (hshape : shape.startsExpression = false)
    (h : shape.rule.Fits precedence tokens phrases rest) : precedence.form shape phrases rest :=
  ⟨sound_of_fits hrule h, fun hstarts => absurd hstarts (by simp [hshape])⟩

/-- The rules of all forms keep the invariant. -/
theorem form_precedence {shape : Form} (h : shape.rule.Fits precedence tokens phrases rest) :
    precedence.form shape phrases rest := by
  cases shape with
  | primary => exact primary_precedence h
  | unary => exact unary_precedence h
  | grouping => exact grouping_precedence h
  | array => exact array_precedence h
  | set => exact comprehension_precedence (.inr (.inr rfl)) h
  | _ => exact free_precedence rfl rfl h

/-! ## Suffixes -/

variable {left : Phrase} {middle : List Token} {above power : Power} {suffix : Suffix}

/-- All phrases of a row are sound if the first one is and the others are. -/
theorem sound_cons (hleft : left.Sound) (h : ∀ phrase ∈ phrases, phrase.Sound) :
    ∀ phrase ∈ left :: phrases, phrase.Sound := by
  intro phrase hmem
  rcases List.mem_cons.mp hmem with rfl | hphrases
  · exact hleft
  · exact h phrase hphrases

/-- An operator with its operands respects precedence if the left one is settled in front of
the operator, and the right one was read above its power. -/
theorem respects_binary {operator : Token} {right : Phrase}
    (hexact : ∀ part ∈ [left, .ofToken .operator operator, right], part.Exact)
    (hstarts : Grammar.standard.suffix operator.kind = some (power, .binary))
    (hreach : power.rank ≤ left.reach) (habove : right.Above power) :
    (Phrase.group .binaryExpression [left, .ofToken .operator operator, right]).Respects := by
  -- The operator stands behind the left operand, so it binds no tighter than that one lets it.
  have hparts := Phrase.parts_group .binaryExpression hexact
  have hlt := Grammar.lt_rank_binary hstarts
  have hpos : Power.lowest.rank < Power.ternary.rank := by decide
  have hleft : left.kind ≠ .conditionalExpression :=
    Phrase.ne_conditional_of_reach (by omega)
  have hright : right.kind ≠ .conditionalExpression := habove.ne_conditional (Nat.le_of_lt hlt)
  refine ⟨left, _, right, power, hparts, hstarts, ?_, ?_, ?_, habove.1⟩
  · rw [hparts]
    simp [hleft, hright]
  · intro hkind
    simpa [Phrase.reach, hkind] using hreach
  · intro hnegation
    rw [Phrase.reach_of_isNegation hnegation] at hreach
    exact Grammar.binary_le_logicalNot hstarts hreach

/-- An operator and its right operand keep the invariant. -/
theorem binary_precedence (hleft : left.Sound) (hreach : power.rank ≤ left.reach)
    (hstarts : Grammar.standard.suffix (nextKind middle) = some (power, .binary))
    (hbinds : above.rank < power.rank) (hexact : ∀ part ∈ left :: phrases, part.Exact)
    (h : (Suffix.binary.rule power).Fits precedence middle phrases rest) :
    precedence.operand above (.group .binaryExpression (left :: phrases)) rest := by
  have hparts := sound_cons hleft (sound_of_fits rfl h)
  rcases h with ⟨_, _, _, ⟨operator, -, rfl, rfl⟩, ⟨_, _, _,
    ⟨right, rfl, ⟨-, habove, -⟩, hstop⟩, ⟨rfl, rfl⟩, rfl⟩, rfl⟩
  simp only [List.cons_append, List.nil_append] at hexact hparts ⊢
  have hpower : (Phrase.group .binaryExpression
      [left, .ofToken .operator operator, right]).operatorPower = power := by
    rw [Phrase.operatorPower, Phrase.parts_group _ hexact]
    exact Grammar.power_of_suffix hstarts
  refine ⟨Phrase.sound_group hexact (respects_binary hexact hstarts hreach habove) hparts, ?_, ?_⟩
  · refine ⟨fun _ => ?_, nofun⟩
    rw [hpower]
    exact hbinds
  · rw [Phrase.Settled, Phrase.reach_of_binary rfl, hpower]
    exact hstop

/-- The condition and the alternative of a conditional keep the invariant. -/
theorem conditional_precedence (hleft : left.Sound) (hreach : Power.lowest.rank < left.reach)
    (hbinds : above.rank < Power.ternary.rank) (hexact : ∀ part ∈ left :: phrases, part.Exact)
    (h : (Suffix.conditional.rule power).Fits precedence middle phrases rest) :
    precedence.operand above (.group .conditionalExpression (left :: phrases)) rest := by
  have hparts := sound_cons hleft (sound_of_fits rfl h)
  rcases h with ⟨_, _, _, ⟨ifWord, -, rfl, -⟩, ⟨_, _, _, ⟨condition, rfl, ⟨-, habove, -⟩, -⟩,
    ⟨_, _, _, ⟨elseWord, -, rfl, -⟩, ⟨_, _, _, ⟨otherwise, rfl, -, hstop⟩, ⟨rfl, rfl⟩, rfl⟩,
    rfl⟩, rfl⟩, rfl⟩
  have hrespects : (Phrase.group .conditionalExpression (left :: _)).Respects :=
    ⟨left, _, condition, _, otherwise, Phrase.parts_group _ hexact,
      Phrase.ne_conditional_of_reach hreach, habove.ne_conditional (Nat.le_refl _)⟩
  exact ⟨Phrase.sound_group hexact hrespects hparts, ⟨nofun, fun _ => hbinds⟩, hstop⟩

/-- What follows a receiver keeps the invariant. -/
theorem receiver_operand {kind : SyntaxKind}
    (hkind : kind = .callExpression ∨ kind = .memberExpression) (hleft : left.Sound)
    (hreach : Power.unary.rank < left.reach) (hexact : ∀ part ∈ left :: phrases, part.Exact)
    (hphrases : ∀ phrase ∈ phrases, phrase.Sound) :
    precedence.operand above (.group kind (left :: phrases)) rest := by
  have hasked : (Phrase.group kind (left :: phrases)).RespectsReceiver :=
    ⟨left, phrases, Phrase.parts_group _ hexact,
      Phrase.isReceiver_of_reach hleft.respects hreach⟩
  have hrespects : (Phrase.group kind (left :: phrases)).Respects := by
    rw [Phrase.Respects, Phrase.kind_group]
    rcases hkind with rfl | rfl <;> exact hasked
  have hreceiver : (Phrase.group kind (left :: phrases)).isReceiver = true := by
    rcases hkind with rfl | rfl <;> rfl
  exact ⟨Phrase.sound_group hexact hrespects (sound_cons hleft hphrases),
    Phrase.above_of_isReceiver hreceiver above, Phrase.settled_of_isReceiver hreceiver rest⟩

/-- The rules of all suffixes keep the invariant. -/
theorem suffix_precedence (hleft : precedence.operand above left middle)
    (hstarts : Grammar.standard.suffix (nextKind middle) = some (power, suffix))
    (hbinds : above.rank < power.rank) (hexact : ∀ part ∈ left :: phrases, part.Exact)
    (h : (suffix.rule power).Fits precedence middle phrases rest) :
    precedence.operand above (.group suffix.kind (left :: phrases)) rest := by
  obtain ⟨hsound, -, hsettled⟩ := hleft
  have hreach : power.rank ≤ left.reach := by
    rw [Phrase.Settled, Grammar.power_of_suffix hstarts] at hsettled
    exact hsettled
  cases suffix with
  | binary => exact binary_precedence hsound hreach hstarts hbinds hexact h
  | conditional =>
    have hpower : power = .ternary := Grammar.power_conditional hstarts
    subst hpower
    exact conditional_precedence hsound (Nat.lt_of_lt_of_le (by decide) hreach) hbinds hexact h
  | call | member | index =>
    have hlt := Grammar.unary_lt_receiver hstarts nofun nofun
    have hphrases := sound_of_fits rfl h
    first
    | exact receiver_operand (.inl rfl) hsound (Nat.lt_of_lt_of_le hlt hreach) hexact hphrases
    | exact receiver_operand (.inr rfl) hsound (Nat.lt_of_lt_of_le hlt hreach) hexact hphrases

end Rules

/-- All rules keep the invariant. -/
theorem precedence_kept : precedence.Kept where
  form := form_precedence
  start := by
    rintro above kind shape phrase rest hstarts ⟨hsound, hshape⟩
    have hexpression : shape.startsExpression = true := by
      cases kind <;> cases hstarts <;> rfl
    obtain ⟨hbinary, hconditional, hsettled⟩ :=
      hshape hexpression phrase List.mem_cons_self
    exact ⟨hsound phrase List.mem_cons_self,
      ⟨fun hkind => absurd hkind hbinary, fun hkind => absurd hkind hconditional⟩, hsettled⟩
  extend := suffix_precedence

/-! ## Trees -/

/-- All phrases of the tree of a token list respect precedence. -/
theorem parse_sound {tokens : List Token} {source : Source} {tree : SyntaxNode}
    (h : parse tokens source = .ok tree) : (⟨tree, wordsOf tokens⟩ : Phrase).Sound := by
  obtain ⟨hkind, phrases, start, rest, hchildren, hwords, hderives⟩ := parse_root h
  have hphrases := sound_of_fits rfl (hderives.fits precedence_kept)
  intro inner hinner
  rw [Phrase.all_eq, Phrase.parts, hchildren, hwords, Phrase.dealOut_map_node hderives.exact]
    at hinner
  rcases List.mem_cons.mp hinner with rfl | hmem
  · apply Phrase.respects_of_isFree
    rw [Phrase.kind, hkind]
    rfl
  · rcases List.mem_flatMap.mp hmem with ⟨phrase, hphrase, hin⟩
    exact hphrases phrase hphrase inner hin

/-- Every node of every tree of a token list, with the tokens of its leaves, respects precedence
and associativity, and every expression, wherever and however deep it is read, ends in front of
a token that binds no tighter than the expression may. -/
theorem parse_respects (source : Source) :
    (∀ tokens tree, parse tokens source = .ok tree →
      (⟨tree, wordsOf tokens⟩ : Phrase).all.map Phrase.node = tree.nodes ∧
        ∀ phrase ∈ (⟨tree, wordsOf tokens⟩ : Phrase).all, phrase.Respects) ∧
    ∀ fuel above stream node after,
      Runs ((⟨source, .standard⟩ : Parser).readWithin fuel (.expression above)) stream node after →
        (Grammar.standard.power after.current.kind).rank ≤ above.rank := by
  constructor
  · intro tokens tree h
    exact ⟨Phrase.map_node_all _, parse_sound h⟩
  · intro fuel above stream node after h
    cases fuel with
    | zero => cases h
    | succ fuel => exact (expression_stops rfl above).of_runs h

/-- In `a * not b + c`, the sum is the operand of `not`, not the product an operand of the
sum: behind `a *` the operand of `not` goes on to the end. -/
theorem parse_respects_productOfNegation :
    (∃ tree, parse
        [⟨.identifier, "a", ⟨0, 1⟩⟩, ⟨.star, "*", ⟨2, 3⟩⟩, ⟨.notWord, "not", ⟨4, 7⟩⟩,
          ⟨.identifier, "b", ⟨8, 9⟩⟩, ⟨.plus, "+", ⟨10, 11⟩⟩, ⟨.identifier, "c", ⟨12, 13⟩⟩,
          .newline ⟨13, 14⟩] [] = .ok tree ∧
      ∀ phrase ∈ (⟨tree, [⟨.identifier, "a", ⟨0, 1⟩⟩, ⟨.star, "*", ⟨2, 3⟩⟩,
          ⟨.notWord, "not", ⟨4, 7⟩⟩, ⟨.identifier, "b", ⟨8, 9⟩⟩, ⟨.plus, "+", ⟨10, 11⟩⟩,
          ⟨.identifier, "c", ⟨12, 13⟩⟩]⟩ : Phrase).all, phrase.Respects) ∧
    ∃ node after,
      Runs ((⟨[], .standard⟩ : Parser).readWithin 2 (.expression .additive))
        ⟨⟨.identifier, "a", ⟨0, 1⟩⟩, [⟨.plus, "+", ⟨2, 3⟩⟩, .eof 3]⟩ node after ∧
      (Grammar.standard.power after.current.kind).rank ≤ Power.additive.rank :=
  ⟨Exists.imp (fun tree hparse => ⟨hparse, ((parse_respects []).1 _ tree hparse).2⟩) ⟨_, rfl⟩,
    Exists.imp (fun node => Exists.imp fun after hruns =>
      ⟨hruns, (parse_respects []).2 _ _ _ node after hruns⟩) ⟨_, _, rfl⟩⟩

end Offside
