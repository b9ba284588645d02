import Offside.Ty

/-!
# Operators

The operators of the language with the words that stand for them, and the containers that
comprehensions build.
-/

namespace Offside

/-- Binary operators. -/
inductive BinOp where
  | plus
  | minus
  | mul
  | idiv
  | mod
  | eq
  | neq
  | lte
  | gte
  | lt
  | gt
  | is
  | and
  | or
  deriving DecidableEq, Repr, Inhabited

namespace BinOp

/-- The word or mark of an operator. -/
def lexeme : BinOp → String
  | .plus => "+"
  | .minus => "-"
  | .mul => "*"
  | .idiv => "//"
  | .mod => "%"
  | .eq => "=="
  | .neq => "!="
  | .lte => "<="
  | .gte => ">="
  | .lt => "<"
  | .gt => ">"
  | .is => "is"
  | .and => "and"
  | .or => "or"

/-- The name under which an operator is shown. -/
def name : BinOp → String
  | .plus => "Plus"
  | .minus => "Minus"
  | .mul => "Mul"
  | .idiv => "IDiv"
  | .mod => "Mod"
  | .eq => "Eq"
  | .neq => "Neq"
  | .lte => "Lte"
  | .gte => "Gte"
  | .lt => "Lt"
  | .gt => "Gt"
  | .is => "Is"
  | .and => "And"
  | .or => "Or"

/-- All binary operators. -/
def all : List BinOp :=
  [.plus, .minus, .mul, .idiv, .mod, .eq, .neq, .lte, .gte, .lt, .gt, .is, .and, .or]

/-- The operator of a word or mark. -/
def ofLexeme? (word : String) : Option BinOp := all.find? fun op => op.lexeme = word

/-- The text of a binary operator is read as this operator. -/
theorem ofLexeme?_lexeme (op : BinOp) : ofLexeme? op.lexeme = some op := by
  cases op <;> decide

end BinOp

/-- Unary operators. -/
inductive UniOp where
  | neg
  | not
  deriving DecidableEq, Repr, Inhabited

namespace UniOp

/-- The word or mark of an operator. -/
def lexeme : UniOp → String
  | .neg => "-"
  | .not => "not"

/-- The name under which an operator is shown. -/
def name : UniOp → String
  | .neg => "Neg"
  | .not => "Not"

/-- All unary operators. -/
def all : List UniOp := [.neg, .not]

/-- The operator of a word or mark. -/
def ofLexeme? (word : String) : Option UniOp := all.find? fun op => op.lexeme = word

/-- The text of a unary operator is read as this operator. -/
theorem ofLexeme?_lexeme (op : UniOp) : ofLexeme? op.lexeme = some op := by
  cases op <;> decide

end UniOp

/-- The container that a comprehension builds. -/
inductive ComprehensionKind where
  | generator
  | list
  | set
  deriving DecidableEq, Repr, Inhabited

namespace ComprehensionKind

/-- The brackets around a comprehension. -/
def brackets : ComprehensionKind → String × String
  | .generator => ("(", ")")
  | .list => ("[", "]")
  | .set => ("\x7b", "\x7d")

/-- The name under which a kind is shown. -/
def name : ComprehensionKind → String
  | .generator => "Generator"
  | .list => "List"
  | .set => "Set"

/-- All kinds of comprehensions. -/
def all : List ComprehensionKind := [.generator, .list, .set]

/-- The kind of comprehension between two brackets. -/
def ofBrackets? (opening closing : String) : Option ComprehensionKind :=
  all.find? fun kind => kind.brackets = (opening, closing)

/-- The type of the container with elements of a type. -/
def container : ComprehensionKind → Ty → Ty
  | .generator => .generator
  | .list => .list
  | .set => .set

/-- The brackets of a comprehension tell its kind. -/
theorem ofBrackets?_brackets (kind : ComprehensionKind) :
    ofBrackets? kind.brackets.1 kind.brackets.2 = some kind := by
  cases kind <;> decide

end ComprehensionKind
end Offside
