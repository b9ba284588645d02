import Offside.Diagnostic
import Offside.Syntax.Cursor

/-!
# Walks

A walk moves a cursor over a syntax tree, looks at the nodes on its way, and may refuse
the source.  A move that leads nowhere leaves the cursor where it is; the walk goes on
from there unless it looks at whether the move succeeded.
-/

namespace Offside

/-- A walk over a syntax tree with a result. -/
abbrev Walk := StateT Cursor Outcome

namespace Walk

/-- Tries a move, and says whether it led anywhere. -/
def go (move : Move) : Walk Bool := fun c =>
  match move.target? c with
  | some c' => .ok (true, c')
  | none => .ok (false, c)

/-- Tries to enter the first child. -/
def firstChild : Walk Bool := go .firstChild

/-- Tries to step to the next sibling. -/
def nextSibling : Walk Bool := go .nextSibling

/-- Tries to go back to the parent. -/
def parent : Walk Bool := go .parent

/-- Enters the first child, if there is one. -/
def enter : Walk Unit := do let _ ← firstChild

/-- Steps to the next sibling, if there is one. -/
def step : Walk Unit := do let _ ← nextSibling

/-- Goes back to the parent, if there is one. -/
def leave : Walk Unit := do let _ ← parent

/-- The kind of the node under the cursor. -/
def kind : Walk SyntaxKind := do return (← get).node.kind

/-- Whether the node under the cursor is of a kind. -/
def isAt (kind : SyntaxKind) : Walk Bool := do return (← get).node.kind = kind

/-- Two tests in turn; the second is made only if the first holds. -/
def andAlso (first second : Walk Bool) : Walk Bool := do
  if ← first then second else return false

/-- The span of the node under the cursor. -/
def span : Walk Span := do return (← get).node.span

/-- Collects what a walk gives at the siblings to the right, until there is none or
`stop` says so; at most `limit` steps. -/
def collect {α : Type} (stop : Walk Bool) (item : Walk (List α)) : Nat → Walk (List α)
  | 0 => throw .unfinished
  | limit + 1 => do
    if ← nextSibling then
      if ← stop then return []
      else
        let first ← item
        let more ← collect stop item limit
        return first ++ more
    else return []

end Walk

/-- What a walk over the tree of a source needs to know: the source, and a bound for the
repetitions of a loop and for the nesting of phrases. -/
structure Lowering where
  source : Source
  limit : Nat

namespace Lowering

/-- The lowering of a tree.  A repetition, or a phrase inside itself, that gets back to
where it was would go on for ever, and there are only so many places in the tree. -/
def ofTree (source : Source) (tree : SyntaxNode) : Lowering := ⟨source, 8 * (tree.size + 1)⟩

variable (l : Lowering)

/-- The text of a span; a span that is none of the source has no text. -/
def textOf (span : Span) : String := String.ofList ((Source.slice? l.source span).getD [])

/-- The text of the node under the cursor. -/
def text : Walk String := do return l.textOf (← Walk.span)

/-- The location of the node under the cursor. -/
def location : Walk Location := do Outcome.locate l.source (← Walk.span).start

/-- Refuses the source at a location. -/
def refuseAt {α : Type} (location : Location) (cause : Cause) : Walk α :=
  throw (.refused ⟨cause, location⟩)

/-- Refuses the source at the node under the cursor. -/
def refuse {α : Type} (cause : Cause) : Walk α := do refuseAt (← l.location) cause

/-- Whether the node under the cursor is the given keyword or mark. -/
def isToken (word : String) : Walk Bool := do
  if (← Walk.kind).isFixedText then return (← l.text) = word else return false

/-- Whether there is a next sibling that is the given keyword or mark; steps there. -/
def stepTo (word : String) : Walk Bool := Walk.andAlso Walk.nextSibling (l.isToken word)

/-- Collects what a walk gives at the siblings to the right, up to a closing bracket.
Commas are passed over. -/
def listUntil {α : Type} (closing : String) (item : Walk (List α)) : Walk (List α) :=
  Walk.collect (l.isToken closing)
    (do if ← l.isToken "," then return [] else item) l.limit

end Lowering
end Offside
