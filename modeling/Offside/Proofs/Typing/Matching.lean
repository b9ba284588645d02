import Offside.Ast
import Mathlib.Data.List.Forall2

/-!
# Trees that match

Two trees that are the same node for node, but for the notes of their nodes and the names of
their comprehension items.  How the notes have to go together, and how the names, is left open.

Main definitions:

- `Matching`: how notes and item names go together.
- `Expr.Matches`, `Stmt.Matches` and `Program.Matches`: two trees are the same up to a matching.

Main results:

- Theorem `Expr.Matches.note`: the notes of matching expressions go together.
-/

namespace Offside

variable {α β : Type}

/-- How the notes of two trees go together, and how the names of their comprehension items. -/
structure Matching (α β : Type) where
  note : α → β → Prop
  item : String → String → Prop

/-! ## Expressions -/

mutual

/-- `e.Matches m bound e'`: the expressions are the same but for their notes and the names of
items.  A name either is the same in both, or stands for the item of a comprehension around;
`bound` holds the two names of each of these items, the innermost first. -/
inductive Expr.Matches (m : Matching α β) :
    List (String × String) → Expr α → Expr β → Prop where
  | literal {bound : List (String × String)} {note : α} {note' : β} {literal : Literal α}
      {literal' : Literal β} (onNote : m.note note note')
      (onLiteral : m.note literal.note literal'.note) (onValue : literal.value = literal'.value) :
      Matches m bound (.literal note literal) (.literal note' literal')
  | id {bound : List (String × String)} {note : α} {note' : β} {name : String}
      (onNote : m.note note note') : Matches m bound (.id note name) (.id note' name)
  /-- The name of an item. -/
  | item {bound : List (String × String)} {note : α} {note' : β} {name name' : String}
      (onNote : m.note note note') (isBound : (name, name') ∈ bound) :
      Matches m bound (.id note name) (.id note' name')
  | binOp {bound : List (String × String)} {note : α} {note' : β} {op : BinOp}
      {left right : Expr α} {left' right' : Expr β} (onNote : m.note note note')
      (onLeft : left.Matches m bound left') (onRight : right.Matches m bound right') :
      Matches m bound (.binOp note op left right) (.binOp note' op left' right')
  | uniOp {bound : List (String × String)} {note : α} {note' : β} {op : UniOp}
      {operand : Expr α} {operand' : Expr β} (onNote : m.note note note')
      (onOperand : operand.Matches m bound operand') :
      Matches m bound (.uniOp note op operand) (.uniOp note' op operand')
  | call {bound : List (String × String)} {note : α} {note' : β} {name : String}
      {genericArgs : List Ty} {arguments : List (Expr α)} {arguments' : List (Expr β)}
      (onNote : m.note note note') (onArguments : Expr.MatchesAll m bound arguments arguments') :
      Matches m bound (.call note name genericArgs arguments)
        (.call note' name genericArgs arguments')
  | construct {bound : List (String × String)} {note : α} {note' : β} {name : String}
      {arguments : List (Expr α)} {arguments' : List (Expr β)}
      (onNote : m.note note note') (onArguments : Expr.MatchesAll m bound arguments arguments') :
      Matches m bound (.construct note name arguments) (.construct note' name arguments')
  | builtin1 {bound : List (String × String)} {note : α} {note' : β} {name : String}
      {argument : Expr α} {argument' : Expr β} (onNote : m.note note note')
      (onArgument : argument.Matches m bound argument') :
      Matches m bound (.builtin1 note name argument) (.builtin1 note' name argument')
  | builtin2 {bound : List (String × String)} {note : α} {note' : β} {name : String}
      {left right : Expr α} {left' right' : Expr β} (onNote : m.note note note')
      (onLeft : left.Matches m bound left') (onRight : right.Matches m bound right') :
      Matches m bound (.builtin2 note name left right) (.builtin2 note' name left' right')
  | methodCall {bound : List (String × String)} {note : α} {note' : β} {object : Expr α}
      {object' : Expr β} {method : String} {arguments : List (Expr α)}
      {arguments' : List (Expr β)} (onNote : m.note note note')
      (onObject : object.Matches m bound object')
      (onArguments : Expr.MatchesAll m bound arguments arguments') :
      Matches m bound (.methodCall note object method arguments)
        (.methodCall note' object' method arguments')
  | lookup {bound : List (String × String)} {note : α} {note' : β} {object : Expr α}
      {object' : Expr β} {field : String} (onNote : m.note note note')
      (onObject : object.Matches m bound object') :
      Matches m bound (.lookup note object field) (.lookup note' object' field)
  | index {bound : List (String × String)} {note : α} {note' : β} {object position : Expr α}
      {object' position' : Expr β} (onNote : m.note note note')
      (onObject : object.Matches m bound object')
      (onPosition : position.Matches m bound position') :
      Matches m bound (.index note object position) (.index note' object' position')
  | listLiteral {bound : List (String × String)} {note : α} {note' : β}
      {elements : List (Expr α)} {elements' : List (Expr β)} (onNote : m.note note note')
      (onElements : Expr.MatchesAll m bound elements elements') :
      Matches m bound (.listLiteral note elements) (.listLiteral note' elements')
  | ternary {bound : List (String × String)} {note : α} {note' : β}
      {ifTrue condition ifFalse : Expr α} {ifTrue' condition' ifFalse' : Expr β}
      (onNote : m.note note note') (onTrue : ifTrue.Matches m bound ifTrue')
      (onCondition : condition.Matches m bound condition')
      (onFalse : ifFalse.Matches m bound ifFalse') :
      Matches m bound (.ternary note ifTrue condition ifFalse)
        (.ternary note' ifTrue' condition' ifFalse')
  /-- The item is bound in the result, and not in the iterable. -/
  | comprehension {bound : List (String × String)} {note : α} {note' : β}
      {kind : ComprehensionKind} {result iterable : Expr α} {result' iterable' : Expr β}
      {item item' : String} (onNote : m.note note note') (onItem : m.item item item')
      (onIterable : iterable.Matches m bound iterable')
      (onResult : result.Matches m ((item, item') :: bound) result') :
      Matches m bound (.comprehension note kind result item iterable none)
        (.comprehension note' kind result' item' iterable' none)
  /-- With a filter the item is bound there as well. -/
  | filtered {bound : List (String × String)} {note : α} {note' : β}
      {kind : ComprehensionKind} {result iterable filter : Expr α}
      {result' iterable' filter' : Expr β} {item item' : String} (onNote : m.note note note')
      (onItem : m.item item item') (onIterable : iterable.Matches m bound iterable')
      (onFilter : filter.Matches m ((item, item') :: bound) filter')
      (onResult : result.Matches m ((item, item') :: bound) result') :
      Matches m bound (.comprehension note kind result item iterable (some filter))
        (.comprehension note' kind result' item' iterable' (some filter'))

/-- Expressions one by one, in order. -/
inductive Expr.MatchesAll (m : Matching α β) :
    List (String × String) → List (Expr α) → List (Expr β) → Prop where
  | nil {bound : List (String × String)} : MatchesAll m bound [] []
  | cons {bound : List (String × String)} {first : Expr α} {rest : List (Expr α)}
      {first' : Expr β} {rest' : List (Expr β)} (onFirst : first.Matches m bound first')
      (onRest : Expr.MatchesAll m bound rest rest') :
      MatchesAll m bound (first :: rest) (first' :: rest')

end

/-- The notes of matching expressions go together. -/
theorem Expr.Matches.note {m : Matching α β} {bound : List (String × String)} {e : Expr α}
    {e' : Expr β} (h : e.Matches m bound e') : m.note e.note e'.note := by
  cases h <;> assumption

/-- The notes of expressions that match one by one go together. -/
theorem Expr.MatchesAll.notes {m : Matching α β} {bound : List (String × String)}
    {es : List (Expr α)} {es' : List (Expr β)} (h : Expr.MatchesAll m bound es es') :
    List.Forall₂ (fun e e' => m.note e.note e'.note) es es' := by
  match h with
  | .nil => exact .nil
  | .cons onFirst onRest => exact .cons onFirst.note onRest.notes

/-! ## Statements -/

mutual

/-- `s.Matches m s'`: the statements are the same but for their notes and the names of items. -/
inductive Stmt.Matches (m : Matching α β) : Stmt α → Stmt β → Prop where
  | assign {note : α} {note' : β} {name : String} {value : Expr α} {value' : Expr β}
      (onNote : m.note note note') (onValue : value.Matches m [] value') :
      Matches m (.assign note name value) (.assign note' name value')
  | fieldAssign {note : α} {note' : β} {object value : Expr α} {object' value' : Expr β}
      {field : String} (onNote : m.note note note') (onObject : object.Matches m [] object')
      (onValue : value.Matches m [] value') :
      Matches m (.fieldAssign note object field value) (.fieldAssign note' object' field value')
  | indexAssign {note : α} {note' : β} {object position value : Expr α}
      {object' position' value' : Expr β} (onNote : m.note note note')
      (onObject : object.Matches m [] object') (onPosition : position.Matches m [] position')
      (onValue : value.Matches m [] value') :
      Matches m (.indexAssign note object position value)
        (.indexAssign note' object' position' value')
  | expr {note : α} {note' : β} {value : Expr α} {value' : Expr β}
      (onNote : m.note note note') (onValue : value.Matches m [] value') :
      Matches m (.expr note value) (.expr note' value')
  | return {note : α} {note' : β} {value : Expr α} {value' : Expr β}
      (onNote : m.note note note') (onValue : value.Matches m [] value') :
      Matches m (.return note value) (.return note' value')
  | cond {note : α} {note' : β} {condition : Expr α} {condition' : Expr β}
      {body otherwise : List (Stmt α)} {body' otherwise' : List (Stmt β)}
      (onNote : m.note note note') (onCondition : condition.Matches m [] condition')
      (onBody : Stmt.MatchesAll m body body')
      (onOtherwise : Stmt.MatchesAll m otherwise otherwise') :
      Matches m (.cond note condition body otherwise) (.cond note' condition' body' otherwise')
  | while {note : α} {note' : β} {condition : Expr α} {condition' : Expr β}
      {body : List (Stmt α)} {body' : List (Stmt β)} (onNote : m.note note note')
      (onCondition : condition.Matches m [] condition') (onBody : Stmt.MatchesAll m body body') :
      Matches m (.while note condition body) (.while note' condition' body')
  | for {note : α} {note' : β} {item : String} {iterable : Expr α} {iterable' : Expr β}
      {body otherwise : List (Stmt α)} {body' otherwise' : List (Stmt β)}
      (onNote : m.note note note') (onIterable : iterable.Matches m [] iterable')
      (onBody : Stmt.MatchesAll m body body')
      (onOtherwise : Stmt.MatchesAll m otherwise otherwise') :
      Matches m (.for note item iterable body otherwise)
        (.for note' item iterable' body' otherwise')
  | pass {note : α} {note' : β} (onNote : m.note note note') : Matches m (.pass note) (.pass note')
  | continue {note : α} {note' : β} (onNote : m.note note note') :
      Matches m (.continue note) (.continue note')
  | break {note : α} {note' : β} (onNote : m.note note note') :
      Matches m (.break note) (.break note')

/-- Statements one by one, in order. -/
inductive Stmt.MatchesAll (m : Matching α β) : List (Stmt α) → List (Stmt β) → Prop where
  | nil : MatchesAll m [] []
  | cons {first : Stmt α} {rest : List (Stmt α)} {first' : Stmt β} {rest' : List (Stmt β)}
      (onFirst : first.Matches m first') (onRest : Stmt.MatchesAll m rest rest') :
      MatchesAll m (first :: rest) (first' :: rest')

end

/-- The notes of matching statements go together. -/
theorem Stmt.Matches.note {m : Matching α β} {s : Stmt α} {s' : Stmt β} (h : s.Matches m s') :
    m.note s.note s'.note := by
  cases h <;> assumption

/-- Statements that match one by one, as a relation between lists. -/
theorem Stmt.matchesAll_iff {m : Matching α β} {block : List (Stmt α)} {block' : List (Stmt β)} :
    Stmt.MatchesAll m block block' ↔ List.Forall₂ (Stmt.Matches m) block block' := by
  constructor
  · intro h
    induction block generalizing block' with
    | nil =>
      cases h
      exact .nil
    | cons first rest ih =>
      cases h with
      | cons onFirst onRest => exact .cons onFirst (ih onRest)
  · intro h
    induction h with
    | nil => exact .nil
    | cons onFirst _ ih => exact .cons onFirst ih

/-! ## Declarations and programs -/

/-- The declarations are the same but for their notes. -/
structure VarInit.Matches (m : Matching α β) (init : VarInit α) (init' : VarInit β) : Prop where
  note : m.note init.note init'.note
  name : init.name = init'.name
  ty : init.ty = init'.ty
  literal : m.note init.value.note init'.value.note
  value : init.value.value = init'.value.value

/-- The functions are the same but for notes and the names of items. -/
structure FunDef.Matches (m : Matching α β) (fn : FunDef α) (fn' : FunDef β) : Prop where
  note : m.note fn.note fn'.note
  name : fn.name = fn'.name
  parameters : fn.parameters = fn'.parameters
  ret : fn.ret = fn'.ret
  inits : List.Forall₂ (VarInit.Matches m) fn.inits fn'.inits
  body : Stmt.MatchesAll m fn.body fn'.body

/-- The classes are the same but for notes and the names of items. -/
structure ClassDef.Matches (m : Matching α β) (cls : ClassDef α) (cls' : ClassDef β) : Prop where
  note : m.note cls.note cls'.note
  name : cls.name = cls'.name
  generics : cls.generics = cls'.generics
  fields : List.Forall₂ (VarInit.Matches m) cls.fields cls'.fields
  methods : List.Forall₂ (FunDef.Matches m) cls.methods cls'.methods

/-- The programs are the same but for notes and the names of items. -/
structure Program.Matches (m : Matching α β) (program : Program α) (program' : Program β) :
    Prop where
  note : m.note program.note program'.note
  inits : List.Forall₂ (VarInit.Matches m) program.inits program'.inits
  funs : List.Forall₂ (FunDef.Matches m) program.funs program'.funs
  classes : List.Forall₂ (ClassDef.Matches m) program.classes program'.classes
  stmts : Stmt.MatchesAll m program.stmts program'.stmts

end Offside
