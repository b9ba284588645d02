import Mathlib.Algebra.Group.Nat.Defs
import Offside.Ast
import Offside.Token.Pattern

/-!
# Written expressions

How expressions are written on one line, as words with single blanks between them.  An
operator stands between or before operands that bind tightly enough; every other operand is
in parentheses, and any part may be in more of them.

Main definitions:

- `Level`: how tightly a written expression binds.
- `Spells`: a run of words spells an expression.
- `line`: the text of a run of words.
- `Expr.Plain`: the expressions that can be written.

Main results:

- Theorem `Expr.Plain.spells`: every plain expression can be written.
-/

namespace Offside

variable {α : Type}

/-- An expression without its notes. -/
def Expr.bare (e : Expr α) : Expr Unit := e.map fun _ => ()

/-! ## Levels -/

/-- How tightly a written expression binds, from loosest to tightest. -/
inductive Level where
  | ternary
  | or
  | and
  | not
  | relational
  | additive
  | multiplicative
  | minus
  | primary
  deriving DecidableEq, Repr

namespace Level

/-- The place of a level in the order of binding. -/
def rank : Level → Nat
  | .ternary => 1
  | .or => 2
  | .and => 3
  | .not => 4
  | .relational => 5
  | .additive => 6
  | .multiplicative => 7
  | .minus => 8
  | .primary => 9

end Level

/-- The level of an expression with a binary operator. -/
def BinOp.level : BinOp → Level
  | .or => .or
  | .and => .and
  | .eq | .neq | .lte | .gte | .lt | .gt | .is => .relational
  | .plus | .minus => .additive
  | .mul | .idiv | .mod => .multiplicative

/-- The level of an expression with a unary operator. -/
def UniOp.level : UniOp → Level
  | .not => .not
  | .neg => .minus

/-! ## Words -/

/-- Names: a letter or underscore, then letters, digits and underscores (ASCII), all but the
reserved words. -/
def IsName (word : String) : Prop :=
  (∃ first more, word.toList = first :: more ∧ (first.isAlpha = true ∨ first = '_') ∧
    ∀ c ∈ more, c.isAlphanum = true ∨ c = '_') ∧
  word ∉ TokenKind.reservedWords.map Prod.fst

/-- What a name is, character by character. -/
theorem isName_iff {word : String} {first : Char} {more : List Char}
    (hword : word.toList = first :: more) :
    IsName word ↔ (first.isAlpha = true ∨ first = '_') ∧
      (more.all fun c => c.isAlphanum || c = '_') = true ∧
      word ∉ TokenKind.reservedWords.map Prod.fst := by
  simp only [IsName, hword, List.cons.injEq, List.all_eq_true, Bool.or_eq_true,
    decide_eq_true_eq]
  constructor
  · rintro ⟨⟨first', more', ⟨rfl, rfl⟩, hfirst, hmore⟩, hreserved⟩
    exact ⟨hfirst, hmore, hreserved⟩
  · rintro ⟨hfirst, hmore, hreserved⟩
    exact ⟨⟨first, more, ⟨rfl, rfl⟩, hfirst, hmore⟩, hreserved⟩

/-- A text of one line between two double or two single quotes. -/
def IsQuotation (word : String) : Prop :=
  ∃ quote inside, (quote = '"' ∨ quote = '\'') ∧ quote ∉ inside ∧ '\n' ∉ inside ∧
    word.toList = quote :: inside ++ [quote]

/-- The names of builtin functions with one argument. -/
def unaryBuiltins : List String := ["print", "abs"]

/-- The names of builtin functions with two arguments. -/
def binaryBuiltins : List String := ["max", "min", "pow"]

/-- The names whose calls are no calls of functions that programs define. -/
def specialNames : List String := "TypeVar" :: (unaryBuiltins ++ binaryBuiltins)

/-- The special names are names that can be written. -/
theorem isName_of_mem_specialNames {name : String} (h : name ∈ specialNames) : IsName name := by
  simp only [specialNames, unaryBuiltins, binaryBuiltins, List.cons_append, List.nil_append,
    List.mem_cons, List.not_mem_nil, or_false] at h
  rcases h with rfl | rfl | rfl | rfl | rfl | rfl <;>
    exact (isName_iff rfl).mpr (by decide)

/-- The builtin functions of one argument have names. -/
theorem isName_of_mem_unaryBuiltins {name : String} (h : name ∈ unaryBuiltins) : IsName name :=
  isName_of_mem_specialNames (List.mem_cons_of_mem _ (List.mem_append_left _ h))

/-- So have those of two arguments. -/
theorem isName_of_mem_binaryBuiltins {name : String} (h : name ∈ binaryBuiltins) : IsName name :=
  isName_of_mem_specialNames (List.mem_cons_of_mem _ (List.mem_append_right _ h))

/-! ## Spelling -/

mutual

/-- `Spells level e words`: the words spell the expression, which binds as `level` says. -/
inductive Spells : Level → Expr Unit → List String → Prop where
  | num {n : Nat} (fits : n < 2 ^ 63) : Spells .primary (.literal () ⟨(), .num n⟩) [toString n]
  | true : Spells .primary (.literal () ⟨(), .bool true⟩) ["True"]
  | false : Spells .primary (.literal () ⟨(), .bool false⟩) ["False"]
  | none : Spells .primary (.literal () ⟨(), .none⟩) ["None"]
  | typeVar {quotation : String} (quoted : IsQuotation quotation) :
      Spells .primary (.literal () ⟨(), .typeVar⟩) ["TypeVar", "(", quotation, ")"]
  | id {name : String} (named : IsName name) : Spells .primary (.id () name) [name]
  /-- Binary operators are left associative. -/
  | binOp {op : BinOp} {left right : Expr Unit} {level level' : Level}
      {words words' : List String} (onLeft : Spells level left words)
      (onRight : Spells level' right words') (atLeast : op.level.rank ≤ level.rank)
      (above : op.level.rank < level'.rank) :
      Spells op.level (.binOp () op left right) (words ++ op.lexeme :: words')
  | uniOp {op : UniOp} {operand : Expr Unit} {level : Level} {words : List String}
      (onOperand : Spells level operand words) (atLeast : op.level.rank ≤ level.rank) :
      Spells op.level (.uniOp () op operand) (op.lexeme :: words)
  /-- Ternaries are right associative. -/
  | ternary {ifTrue condition ifFalse : Expr Unit} {level level' level'' : Level}
      {words words' words'' : List String} (onTrue : Spells level ifTrue words)
      (onCondition : Spells level' condition words') (onFalse : Spells level'' ifFalse words'')
      (above : Level.ternary.rank < level.rank) (above' : Level.ternary.rank < level'.rank) :
      Spells .ternary (.ternary () ifTrue condition ifFalse)
        (words ++ "if" :: (words' ++ "else" :: words''))
  | call {name : String} {arguments : List (Expr Unit)} {words : List String}
      (named : IsName name) (ordinary : name ∉ specialNames)
      (onArguments : SpellsAll arguments words) :
      Spells .primary (.call () name [] arguments) (name :: "(" :: (words ++ [")"]))
  | builtin1 {name : String} {argument : Expr Unit} {level : Level} {words : List String}
      (builtin : name ∈ unaryBuiltins) (onArgument : Spells level argument words) :
      Spells .primary (.builtin1 () name argument) (name :: "(" :: (words ++ [")"]))
  | builtin2 {name : String} {left right : Expr Unit} {level level' : Level}
      {words words' : List String} (builtin : name ∈ binaryBuiltins)
      (onLeft : Spells level left words) (onRight : Spells level' right words') :
      Spells .primary (.builtin2 () name left right)
        (name :: "(" :: (words ++ "," :: (words' ++ [")"])))
  | methodCall {object : Expr Unit} {method : String} {arguments : List (Expr Unit)}
      {words words' : List String} (onObject : Spells .primary object words)
      (named : IsName method) (onArguments : SpellsAll arguments words') :
      Spells .primary (.methodCall () object method arguments)
        (words ++ "." :: method :: "(" :: (words' ++ [")"]))
  | lookup {object : Expr Unit} {field : String} {words : List String}
      (onObject : Spells .primary object words) (named : IsName field) :
      Spells .primary (.lookup () object field) (words ++ [".", field])
  | index {object position : Expr Unit} {level : Level} {words words' : List String}
      (onObject : Spells .primary object words) (onPosition : Spells level position words') :
      Spells .primary (.index () object position) (words ++ "[" :: (words' ++ ["]"]))
  | listLiteral {elements : List (Expr Unit)} {words : List String}
      (onElements : SpellsAll elements words) :
      Spells .primary (.listLiteral () elements) ("[" :: (words ++ ["]"]))
  /-- The iterable binds tighter than a ternary. -/
  | comprehension {kind : ComprehensionKind} {result iterable : Expr Unit} {item : String}
      {level level' : Level} {words words' : List String} (onResult : Spells level result words)
      (named : IsName item) (onIterable : Spells level' iterable words')
      (above : Level.ternary.rank < level'.rank) :
      Spells .primary (.comprehension () kind result item iterable none)
        (kind.brackets.1 :: (words ++ "for" :: item :: "in" :: (words' ++ [kind.brackets.2])))
  /-- So does the filter. -/
  | filtered {kind : ComprehensionKind} {result iterable filter : Expr Unit} {item : String}
      {level level' level'' : Level} {words words' words'' : List String}
      (onResult : Spells level result words) (named : IsName item)
      (onIterable : Spells level' iterable words') (onFilter : Spells level'' filter words'')
      (above : Level.ternary.rank < level'.rank) (above' : Level.ternary.rank < level''.rank) :
      Spells .primary (.comprehension () kind result item iterable (some filter))
        (kind.brackets.1 :: (words ++ "for" :: item :: "in" ::
          (words' ++ "if" :: (words'' ++ [kind.brackets.2]))))
  /-- Parentheses are needed around an operand that does not bind tightly enough, and may
  stand around anything. -/
  | parens {e : Expr Unit} {level : Level} {words : List String}
      (inside : Spells level e words) : Spells .primary e ("(" :: (words ++ [")"]))

/-- Expressions with commas between them. -/
inductive SpellsAll : List (Expr Unit) → List String → Prop where
  | nil : SpellsAll [] []
  | cons {first : Expr Unit} {more : List (Expr Unit)} {level : Level}
      {words words' : List String} (onFirst : Spells level first words)
      (onMore : SpellsMore more words') : SpellsAll (first :: more) (words ++ words')

/-- More expressions, each behind a comma. -/
inductive SpellsMore : List (Expr Unit) → List String → Prop where
  | nil : SpellsMore [] []
  | cons {next : Expr Unit} {more : List (Expr Unit)} {level : Level}
      {words words' : List String} (onNext : Spells level next words)
      (onMore : SpellsMore more words') :
      SpellsMore (next :: more) ("," :: (words ++ words'))

end

/-- The text of words on one line, with single blanks between them. -/
def line (words : List String) : Source := [' '].intercalate (words.map String.toList)

/-! ## Plain expressions -/

mutual

/-- Expressions of names that can be written, numbers from zero on that fit in 64 bits, and
calls of plain names without type arguments. -/
def Expr.Plain : Expr α → Prop
  | .literal _ ⟨_, .num n⟩ => 0 ≤ n ∧ n < 2 ^ 63
  | .literal _ ⟨_, _⟩ => True
  | .id _ name => IsName name
  | .binOp _ _ left right => left.Plain ∧ right.Plain
  | .uniOp _ _ operand => operand.Plain
  | .call _ name genericArgs arguments =>
    (IsName name ∧ name ∉ specialNames ∧ genericArgs = []) ∧ Expr.PlainAll arguments
  | .construct _ _ _ => False
  | .builtin1 _ name argument => name ∈ unaryBuiltins ∧ argument.Plain
  | .builtin2 _ name left right => name ∈ binaryBuiltins ∧ left.Plain ∧ right.Plain
  | .methodCall _ object method arguments =>
    IsName method ∧ object.Plain ∧ Expr.PlainAll arguments
  | .lookup _ object field => IsName field ∧ object.Plain
  | .index _ object position => object.Plain ∧ position.Plain
  | .listLiteral _ elements => Expr.PlainAll elements
  | .ternary _ ifTrue condition ifFalse => ifTrue.Plain ∧ condition.Plain ∧ ifFalse.Plain
  | .comprehension _ _ result item iterable none =>
    IsName item ∧ result.Plain ∧ iterable.Plain
  | .comprehension _ _ result item iterable (some filter) =>
    IsName item ∧ result.Plain ∧ iterable.Plain ∧ filter.Plain

/-- All of several expressions are plain. -/
def Expr.PlainAll : List (Expr α) → Prop
  | [] => True
  | first :: rest => first.Plain ∧ Expr.PlainAll rest

end

/-- Binary operators are below names. -/
theorem BinOp.rank_level_lt (op : BinOp) : op.level.rank < Level.primary.rank := by
  cases op <;> decide

/-- So are unary operators. -/
theorem UniOp.rank_level_lt (op : UniOp) : op.level.rank < Level.primary.rank := by
  cases op <;> decide

mutual

/-- Every plain expression can be written, for one with parentheses around every operand. -/
theorem Expr.Plain.spells {e : Expr α} (h : e.Plain) : ∃ words, Spells .primary e.bare words := by
  match e with
  | .literal _ ⟨_, .num n⟩ =>
    rcases Int.eq_ofNat_of_zero_le h.1 with ⟨k, rfl⟩
    exact ⟨_, .num (Int.ofNat_lt.mp h.2)⟩
  | .literal _ ⟨_, .bool true⟩ => exact ⟨_, .true⟩
  | .literal _ ⟨_, .bool false⟩ => exact ⟨_, .false⟩
  | .literal _ ⟨_, .none⟩ => exact ⟨_, .none⟩
  | .literal _ ⟨_, .typeVar⟩ =>
    have hquoted : IsQuotation "'T'" := ⟨'\'', ['T'], .inr rfl, by decide, by decide, rfl⟩
    exact ⟨_, .typeVar hquoted⟩
  | .id _ name => exact ⟨_, .id h⟩
  | .binOp _ op left right =>
    rcases h.1.spells with ⟨words, onLeft⟩
    rcases h.2.spells with ⟨words', onRight⟩
    exact ⟨_, .parens (.binOp onLeft onRight (Nat.le_of_lt op.rank_level_lt) op.rank_level_lt)⟩
  | .uniOp _ op operand =>
    have hoperand : operand.Plain := h
    rcases hoperand.spells with ⟨words, onOperand⟩
    exact ⟨_, .parens (.uniOp onOperand (Nat.le_of_lt op.rank_level_lt))⟩
  | .call _ name genericArgs arguments =>
    rcases h with ⟨⟨named, ordinary, rfl⟩, harguments⟩
    rcases Expr.PlainAll.spells harguments with ⟨words, onArguments⟩
    exact ⟨_, .call named ordinary onArguments⟩
  | .builtin1 _ name argument =>
    rcases h.2.spells with ⟨words, onArgument⟩
    exact ⟨_, .builtin1 h.1 onArgument⟩
  | .builtin2 _ name left right =>
    rcases h.2.1.spells with ⟨words, onLeft⟩
    rcases h.2.2.spells with ⟨words', onRight⟩
    exact ⟨_, .builtin2 h.1 onLeft onRight⟩
  | .methodCall _ object method arguments =>
    rcases h.2.1.spells with ⟨words, onObject⟩
    rcases Expr.PlainAll.spells h.2.2 with ⟨words', onArguments⟩
    exact ⟨_, .methodCall onObject h.1 onArguments⟩
  | .lookup _ object field =>
    rcases h.2.spells with ⟨words, onObject⟩
    exact ⟨_, .lookup onObject h.1⟩
  | .index _ object position =>
    rcases h.1.spells with ⟨words, onObject⟩
    rcases h.2.spells with ⟨words', onPosition⟩
    exact ⟨_, .index onObject onPosition⟩
  | .listLiteral _ elements =>
    have hall : Expr.PlainAll elements := h
    rcases hall.spells with ⟨words, onElements⟩
    exact ⟨_, .listLiteral onElements⟩
  | .ternary _ ifTrue condition ifFalse =>
    rcases h.1.spells with ⟨words, onTrue⟩
    rcases h.2.1.spells with ⟨words', onCondition⟩
    rcases h.2.2.spells with ⟨words'', onFalse⟩
    exact ⟨_, .parens (.ternary onTrue onCondition onFalse (by decide) (by decide))⟩
  | .comprehension _ kind result item iterable none =>
    rcases h.2.1.spells with ⟨words, onResult⟩
    rcases h.2.2.spells with ⟨words', onIterable⟩
    exact ⟨_, .comprehension onResult h.1 onIterable (by decide)⟩
  | .comprehension _ kind result item iterable (some filter) =>
    rcases h.2.1.spells with ⟨words, onResult⟩
    rcases h.2.2.1.spells with ⟨words', onIterable⟩
    rcases h.2.2.2.spells with ⟨words'', onFilter⟩
    exact ⟨_, .filtered onResult h.1 onIterable onFilter (by decide) (by decide)⟩

/-- Plain expressions in a row have a spelling. -/
theorem Expr.PlainAll.spells {es : List (Expr α)} (h : Expr.PlainAll es) :
    ∃ words, SpellsAll (Expr.mapAll (fun _ => ()) es) words := by
  match es with
  | [] => exact ⟨_, .nil⟩
  | first :: rest =>
    rcases h.1.spells with ⟨words, onFirst⟩
    rcases Expr.PlainAll.spells_more h.2 with ⟨words', onRest⟩
    exact ⟨_, .cons onFirst onRest⟩

/-- So have plain expressions behind another one. -/
theorem Expr.PlainAll.spells_more {es : List (Expr α)} (h : Expr.PlainAll es) :
    ∃ words, SpellsMore (Expr.mapAll (fun _ => ()) es) words := by
  match es with
  | [] => exact ⟨_, .nil⟩
  | next :: rest =>
    rcases h.1.spells with ⟨words, onNext⟩
    rcases Expr.PlainAll.spells_more h.2 with ⟨words', onRest⟩
    exact ⟨_, .cons onNext onRest⟩

end

end Offside
