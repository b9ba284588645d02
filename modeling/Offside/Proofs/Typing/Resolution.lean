import Offside.Proofs.Typing.Footprint

/-!
# Resolved programs

What the checker makes of a program that it accepts: the same tree, node for node, in which
calls of classes are told from calls of functions, the item of each comprehension has its new
name, and each name is resolved to the innermost comprehension item that binds it or else
stays, with the type of the body's variable or of the module's.

Main definitions:

- `Expr.Resolves`, `Stmt.Resolves` and `Program.Resolves`: a checked tree is a tree with its
  names resolved, the items of its comprehensions being given new names in order.

Main results:

- Theorem `Program.Resolves.items_eq`: the items of a checked program are the new names.
-/

namespace Offside

open Typing

/-- Comprehension items in scope, the innermost first, each with its new name and the element
type of the iterable it stands for. -/
abbrev Bindings := Table (String × Ty)

/-! ## The variables of a body -/

/-- The last entry set for a name is found. -/
theorem Table.find?_insertAll {β : Type} (table : Table β) (entries : List (String × β))
    (name : String) :
    Table.find? (Table.insertAll table entries) name =
      (Table.find? entries.reverse name).or (Table.find? table name) := by
  induction entries generalizing table with
  | nil => rfl
  | cons entry rest ih =>
    have hlast : Table.find? (rest.reverse ++ [entry]) name =
        (Table.find? rest.reverse name).or (Table.find? [entry] name) := by
      simp [Table.find?, List.lookup_append]
    rw [Table.insertAll, List.foldl_cons, ← Table.insertAll, ih, List.reverse_cons, hlast,
      Table.find?_insert, Table.find?_cons]
    cases Table.find? rest.reverse name with
    | some value => rfl
    | none => by_cases hname : name = entry.1 <;> simp [hname]

/-! ## The relation -/

mutual

/-- `e.Resolves env vars around names e'`: the checked expression `e'` is `e`, node for node,
with its names resolved in the comprehension items `around` it, in the variables `vars` of
the body and in the module.  The items of its own comprehensions are renamed to `names`, in
the order in which the checker comes to them.  The types on the nodes are free, but those of
names and of created objects. -/
inductive Expr.Resolves (env : Env) (vars : Table Ty) :
    Bindings → Expr Location → List String → Expr Typed → Prop where
  | literal {around : Bindings} {location : Location} {literal : Literal Location}
      {ty litTy : Ty} :
      Resolves env vars around (.literal location literal) []
        (.literal ⟨ty, location⟩ ⟨⟨litTy, literal.note⟩, literal.value⟩)
  /-- A name that an item around binds becomes the new name of the innermost such item. -/
  | item {around : Bindings} {location : Location} {name renamed : String} {ty : Ty}
      (bound : Table.find? around name = some (renamed, ty)) :
      Resolves env vars around (.id location name) [] (.id ⟨ty, location⟩ renamed)
  /-- A variable of the body. -/
  | local {around : Bindings} {location : Location} {name : String} {ty : Ty}
      (free : Table.find? around name = none) (declared : Table.find? vars name = some ty) :
      Resolves env vars around (.id location name) [] (.id ⟨ty, location⟩ name)
  /-- A variable of the module, where the body has none of this name. -/
  | global {around : Bindings} {location : Location} {name : String} {ty : Ty}
      (free : Table.find? around name = none) (undeclared : Table.find? vars name = none)
      (declared : env.global? name = some ty) :
      Resolves env vars around (.id location name) [] (.id ⟨ty, location⟩ name)
  | binOp {around : Bindings} {location : Location} {op : BinOp} {left right : Expr Location}
      {names names' : List String} {left' right' : Expr Typed} {ty : Ty}
      (onLeft : left.Resolves env vars around names left')
      (onRight : right.Resolves env vars around names' right') :
      Resolves env vars around (.binOp location op left right) (names ++ names')
        (.binOp ⟨ty, location⟩ op left' right')
  | uniOp {around : Bindings} {location : Location} {op : UniOp} {operand : Expr Location}
      {names : List String} {operand' : Expr Typed} {ty : Ty}
      (onOperand : operand.Resolves env vars around names operand') :
      Resolves env vars around (.uniOp location op operand) names
        (.uniOp ⟨ty, location⟩ op operand')
  /-- The call of a name that is no class. -/
  | call {around : Bindings} {location : Location} {name : String} {genericArgs : List Ty}
      {arguments : List (Expr Location)} {names : List String} {arguments' : List (Expr Typed)}
      {ty : Ty} (noClass : env.class? name = none)
      (onArguments : Expr.ResolvesAll env vars around arguments names arguments') :
      Resolves env vars around (.call location name genericArgs arguments) names
        (.call ⟨ty, location⟩ name genericArgs arguments')
  /-- The call of a class creates an object; its type tells the generic arguments. -/
  | create {around : Bindings} {location : Location} {name : String} {genericArgs : List Ty}
      {arguments : List (Expr Location)} {names : List String} {arguments' : List (Expr Typed)}
      {cls : ClassInfo} (isClass : env.class? name = some cls)
      (onArguments : Expr.ResolvesAll env vars around arguments names arguments') :
      Resolves env vars around (.call location name genericArgs arguments) names
        (.construct ⟨.object name genericArgs, location⟩ name arguments')
  | construct {around : Bindings} {location : Location} {name : String}
      {arguments : List (Expr Location)} {names : List String} {arguments' : List (Expr Typed)}
      (onArguments : Expr.ResolvesAll env vars around arguments names arguments') :
      Resolves env vars around (.construct location name arguments) names
        (.construct ⟨.plain name, location⟩ name arguments')
  | builtin1 {around : Bindings} {location : Location} {name : String}
      {argument : Expr Location} {names : List String} {argument' : Expr Typed} {ty : Ty}
      (onArgument : argument.Resolves env vars around names argument') :
      Resolves env vars around (.builtin1 location name argument) names
        (.builtin1 ⟨ty, location⟩ name argument')
  | builtin2 {around : Bindings} {location : Location} {name : String}
      {left right : Expr Location} {names names' : List String} {left' right' : Expr Typed}
      {ty : Ty} (onLeft : left.Resolves env vars around names left')
      (onRight : right.Resolves env vars around names' right') :
      Resolves env vars around (.builtin2 location name left right) (names ++ names')
        (.builtin2 ⟨ty, location⟩ name left' right')
  | methodCall {around : Bindings} {location : Location} {object : Expr Location}
      {method : String} {arguments : List (Expr Location)} {names names' : List String}
      {object' : Expr Typed} {arguments' : List (Expr Typed)} {ty : Ty}
      (onObject : object.Resolves env vars around names object')
      (onArguments : Expr.ResolvesAll env vars around arguments names' arguments') :
      Resolves env vars around (.methodCall location object method arguments) (names ++ names')
        (.methodCall ⟨ty, location⟩ object' method arguments')
  | lookup {around : Bindings} {location : Location} {object : Expr Location} {field : String}
      {names : List String} {object' : Expr Typed} {ty : Ty}
      (onObject : object.Resolves env vars around names object') :
      Resolves env vars around (.lookup location object field) names
        (.lookup ⟨ty, location⟩ object' field)
  | index {around : Bindings} {location : Location} {object position : Expr Location}
      {names names' : List String} {object' position' : Expr Typed} {ty : Ty}
      (onObject : object.Resolves env vars around names object')
      (onPosition : position.Resolves env vars around names' position') :
      Resolves env vars around (.index location object position) (names ++ names')
        (.index ⟨ty, location⟩ object' position')
  | listLiteral {around : Bindings} {location : Location} {elements : List (Expr Location)}
      {names : List String} {elements' : List (Expr Typed)} {ty : Ty}
      (onElements : Expr.ResolvesAll env vars around elements names elements') :
      Resolves env vars around (.listLiteral location elements) names
        (.listLiteral ⟨ty, location⟩ elements')
  | ternary {around : Bindings} {location : Location}
      {ifTrue condition ifFalse : Expr Location} {names names' names'' : List String}
      {ifTrue' condition' ifFalse' : Expr Typed} {ty : Ty}
      (onTrue : ifTrue.Resolves env vars around names ifTrue')
      (onCondition : condition.Resolves env vars around names' condition')
      (onFalse : ifFalse.Resolves env vars around names'' ifFalse') :
      Resolves env vars around (.ternary location ifTrue condition ifFalse)
        (names ++ (names' ++ names'')) (.ternary ⟨ty, location⟩ ifTrue' condition' ifFalse')
  /-- The item is bound in the result, with the element type of the iterable, and not in the
  iterable. -/
  | comprehension {around : Bindings} {location : Location} {kind : ComprehensionKind}
      {result : Expr Location} {item : String} {iterable : Expr Location}
      {names names' : List String} {renamed : String} {result' iterable' : Expr Typed}
      {element ty : Ty} (onIterable : iterable.Resolves env vars around names iterable')
      (yields : env.element? iterable'.ty = some element)
      (onResult : result.Resolves env vars ((item, (renamed, element)) :: around) names'
        result') :
      Resolves env vars around (.comprehension location kind result item iterable none)
        (names ++ (renamed :: names'))
        (.comprehension ⟨ty, location⟩ kind result' renamed iterable' none)
  /-- With a filter the item is bound there as well. -/
  | filtered {around : Bindings} {location : Location} {kind : ComprehensionKind}
      {result : Expr Location} {item : String} {iterable filter : Expr Location}
      {names names' names'' : List String} {renamed : String}
      {result' iterable' filter' : Expr Typed} {element ty : Ty}
      (onIterable : iterable.Resolves env vars around names iterable')
      (yields : env.element? iterable'.ty = some element)
      (onFilter : filter.Resolves env vars ((item, (renamed, element)) :: around) names'
        filter')
      (onResult : result.Resolves env vars ((item, (renamed, element)) :: around) names''
        result') :
      Resolves env vars around (.comprehension location kind result item iterable (some filter))
        (names ++ (renamed :: (names' ++ names'')))
        (.comprehension ⟨ty, location⟩ kind result' renamed iterable' (some filter'))

/-- Expressions one by one, in order. -/
inductive Expr.ResolvesAll (env : Env) (vars : Table Ty) :
    Bindings → List (Expr Location) → List String → List (Expr Typed) → Prop where
  | nil {around : Bindings} : ResolvesAll env vars around [] [] []
  | cons {around : Bindings} {first : Expr Location} {rest : List (Expr Location)}
      {names names' : List String} {first' : Expr Typed} {rest' : List (Expr Typed)}
      (onFirst : first.Resolves env vars around names first')
      (onRest : Expr.ResolvesAll env vars around rest names' rest') :
      ResolvesAll env vars around (first :: rest) (names ++ names') (first' :: rest')

end

mutual

/-- `s.Resolves env vars names s'`: the checked statement `s'` is `s`, node for node, with
its names resolved in the variables `vars` of the body and in the module. -/
inductive Stmt.Resolves (env : Env) (vars : Table Ty) :
    Stmt Location → List String → Stmt Typed → Prop where
  | assign {location : Location} {name : String} {value : Expr Location} {names : List String}
      {value' : Expr Typed} {ty : Ty} (onValue : value.Resolves env vars [] names value') :
      Resolves env vars (.assign location name value) names
        (.assign ⟨ty, location⟩ name value')
  | fieldAssign {location : Location} {object value : Expr Location} {field : String}
      {names names' : List String} {object' value' : Expr Typed} {ty : Ty}
      (onObject : object.Resolves env vars [] names object')
      (onValue : value.Resolves env vars [] names' value') :
      Resolves env vars (.fieldAssign location object field value) (names ++ names')
        (.fieldAssign ⟨ty, location⟩ object' field value')
  | indexAssign {location : Location} {object position value : Expr Location}
      {names names' names'' : List String} {object' position' value' : Expr Typed} {ty : Ty}
      (onObject : object.Resolves env vars [] names object')
      (onPosition : position.Resolves env vars [] names' position')
      (onValue : value.Resolves env vars [] names'' value') :
      Resolves env vars (.indexAssign location object position value)
        (names ++ (names' ++ names'')) (.indexAssign ⟨ty, location⟩ object' position' value')
  | expr {location : Location} {value : Expr Location} {names : List String}
      {value' : Expr Typed} {ty : Ty} (onValue : value.Resolves env vars [] names value') :
      Resolves env vars (.expr location value) names (.expr ⟨ty, location⟩ value')
  | return {location : Location} {value : Expr Location} {names : List String}
      {value' : Expr Typed} {ty : Ty} (onValue : value.Resolves env vars [] names value') :
      Resolves env vars (.return location value) names (.return ⟨ty, location⟩ value')
  | cond {location : Location} {condition : Expr Location} {body otherwise : List (Stmt Location)}
      {names names' names'' : List String} {condition' : Expr Typed}
      {body' otherwise' : List (Stmt Typed)} {ty : Ty}
      (onCondition : condition.Resolves env vars [] names condition')
      (onBody : Stmt.ResolvesAll env vars body names' body')
      (onOtherwise : Stmt.ResolvesAll env vars otherwise names'' otherwise') :
      Resolves env vars (.cond location condition body otherwise) (names ++ (names' ++ names''))
        (.cond ⟨ty, location⟩ condition' body' otherwise')
  | while {location : Location} {condition : Expr Location} {body : List (Stmt Location)}
      {names names' : List String} {condition' : Expr Typed} {body' : List (Stmt Typed)}
      {ty : Ty} (onCondition : condition.Resolves env vars [] names condition')
      (onBody : Stmt.ResolvesAll env vars body names' body') :
      Resolves env vars (.while location condition body) (names ++ names')
        (.while ⟨ty, location⟩ condition' body')
  | for {location : Location} {item : String} {iterable : Expr Location}
      {body otherwise : List (Stmt Location)} {names names' names'' : List String}
      {iterable' : Expr Typed} {body' otherwise' : List (Stmt Typed)} {ty : Ty}
      (onIterable : iterable.Resolves env vars [] names iterable')
      (onBody : Stmt.ResolvesAll env vars body names' body')
      (onOtherwise : Stmt.ResolvesAll env vars otherwise names'' otherwise') :
      Resolves env vars (.for location item iterable body otherwise)
        (names ++ (names' ++ names'')) (.for ⟨ty, location⟩ item iterable' body' otherwise')
  | pass {location : Location} {ty : Ty} :
      Resolves env vars (.pass location) [] (.pass ⟨ty, location⟩)
  | continue {location : Location} {ty : Ty} :
      Resolves env vars (.continue location) [] (.continue ⟨ty, location⟩)
  | break {location : Location} {ty : Ty} :
      Resolves env vars (.break location) [] (.break ⟨ty, location⟩)

/-- Statements one by one, in order. -/
inductive Stmt.ResolvesAll (env : Env) (vars : Table Ty) :
    List (Stmt Location) → List String → List (Stmt Typed) → Prop where
  | nil : ResolvesAll env vars [] [] []
  | cons {first : Stmt Location} {rest : List (Stmt Location)} {names names' : List String}
      {first' : Stmt Typed} {rest' : List (Stmt Typed)}
      (onFirst : first.Resolves env vars names first')
      (onRest : Stmt.ResolvesAll env vars rest names' rest') :
      ResolvesAll env vars (first :: rest) (names ++ names') (first' :: rest')

end

/-- Entries one by one, in order. -/
inductive ResolvesEach {α β : Type} (resolves : α → List String → β → Prop) :
    List α → List String → List β → Prop where
  | nil : ResolvesEach resolves [] [] []
  | cons {first : α} {rest : List α} {names names' : List String} {first' : β}
      {rest' : List β} (onFirst : resolves first names first')
      (onRest : ResolvesEach resolves rest names' rest') :
      ResolvesEach resolves (first :: rest) (names ++ names') (first' :: rest')

/-- A checked function is a function with the names of its body resolved in its parameters
and variables; there a later declaration of a name hides an earlier one. -/
structure FunDef.Resolves (env : Env) (fn : FunDef Location) (names : List String)
    (fn' : FunDef Typed) : Prop where
  location : fn'.note.location = fn.note
  name : fn'.name = fn.name
  parameters : fn'.parameters = fn.parameters
  ret : fn'.ret = fn.ret
  inits : fn'.inits.map (VarInit.map Typed.location) = fn.inits
  body : Stmt.ResolvesAll env (bodyLocals fn).vars fn.body names fn'.body

/-- A checked class is a class with the names of its methods resolved. -/
structure ClassDef.Resolves (env : Env) (cls : ClassDef Location) (names : List String)
    (cls' : ClassDef Typed) : Prop where
  location : cls'.note.location = cls.note
  name : cls'.name = cls.name
  generics : cls'.generics = cls.generics
  fields : cls'.fields.map (VarInit.map Typed.location) = cls.fields
  methods : ResolvesEach (FunDef.Resolves env) cls.methods names cls'.methods

/-- A checked program is a program with its names resolved; the top level has no variables
but those of the module. -/
structure Program.Resolves (env : Env) (program : Program Location) (names : List String)
    (program' : Program Typed) : Prop where
  location : program'.note.location = program.note
  inits : program'.inits.map (VarInit.map Typed.location) = program.inits
  parts : ∃ funNames classNames stmtNames, names = funNames ++ (classNames ++ stmtNames) ∧
    ResolvesEach (FunDef.Resolves env) program.funs funNames program'.funs ∧
    ResolvesEach (ClassDef.Resolves env) program.classes classNames program'.classes ∧
    Stmt.ResolvesAll env [] program.stmts stmtNames program'.stmts

/-! ## The items of resolved trees -/

mutual

/-- The items of a resolved expression are the new names. -/
theorem Expr.Resolves.items_eq {env : Env} {vars : Table Ty} {around : Bindings}
    {e : Expr Location} {names : List String} {e' : Expr Typed}
    (h : e.Resolves env vars around names e') : e'.items = names := by
  match h with
  | .literal => rfl
  | .item _ | .local _ _ | .global _ _ _ => rfl
  | .binOp onLeft onRight => rw [Expr.items, onLeft.items_eq, onRight.items_eq]
  | .uniOp onOperand => rw [Expr.items, onOperand.items_eq]
  | .call _ onArguments | .create _ onArguments | .construct onArguments =>
    rw [Expr.items, onArguments.items_eq]
  | .builtin1 onArgument => rw [Expr.items, onArgument.items_eq]
  | .builtin2 onLeft onRight => rw [Expr.items, onLeft.items_eq, onRight.items_eq]
  | .methodCall onObject onArguments => rw [Expr.items, onObject.items_eq, onArguments.items_eq]
  | .lookup onObject => rw [Expr.items, onObject.items_eq]
  | .index onObject onPosition => rw [Expr.items, onObject.items_eq, onPosition.items_eq]
  | .listLiteral onElements => rw [Expr.items, onElements.items_eq]
  | .ternary onTrue onCondition onFalse =>
    rw [Expr.items, onTrue.items_eq, onCondition.items_eq, onFalse.items_eq]
  | .comprehension onIterable _ onResult =>
    rw [Expr.items, onIterable.items_eq, onResult.items_eq]
  | .filtered onIterable _ onFilter onResult =>
    rw [Expr.items, onIterable.items_eq, onFilter.items_eq, onResult.items_eq]

/-- The items of expressions in a row have the names handed out for them. -/
theorem Expr.ResolvesAll.items_eq {env : Env} {vars : Table Ty} {around : Bindings}
    {es : List (Expr Location)} {names : List String} {es' : List (Expr Typed)}
    (h : Expr.ResolvesAll env vars around es names es') : Expr.itemsAll es' = names := by
  match h with
  | .nil => rfl
  | .cons onFirst onRest => rw [Expr.itemsAll, onFirst.items_eq, onRest.items_eq]

end

mutual

/-- The items of a resolved statement are the new names. -/
theorem Stmt.Resolves.items_eq {env : Env} {vars : Table Ty} {s : Stmt Location}
    {names : List String} {s' : Stmt Typed} (h : s.Resolves env vars names s') :
    s'.items = names := by
  match h with
  | .assign onValue | .expr onValue | .return onValue => rw [Stmt.items, onValue.items_eq]
  | .fieldAssign onObject onValue => rw [Stmt.items, onObject.items_eq, onValue.items_eq]
  | .indexAssign onObject onPosition onValue =>
    rw [Stmt.items, onObject.items_eq, onPosition.items_eq, onValue.items_eq]
  | .cond onCondition onBody onOtherwise =>
    rw [Stmt.items, onCondition.items_eq, onBody.items_eq, onOtherwise.items_eq]
  | .while onCondition onBody => rw [Stmt.items, onCondition.items_eq, onBody.items_eq]
  | .for onIterable onBody onOtherwise =>
    rw [Stmt.items, onIterable.items_eq, onBody.items_eq, onOtherwise.items_eq]
  | .pass | .continue | .break => rfl

/-- So have those of statements in a row. -/
theorem Stmt.ResolvesAll.items_eq {env : Env} {vars : Table Ty} {block : List (Stmt Location)}
    {names : List String} {block' : List (Stmt Typed)}
    (h : Stmt.ResolvesAll env vars block names block') : Stmt.itemsAll block' = names := by
  match h with
  | .nil => rfl
  | .cons onFirst onRest => rw [Stmt.itemsAll, onFirst.items_eq, onRest.items_eq]

end

/-- So have those of entries in a row. -/
theorem ResolvesEach.flatMap_items_eq {α β : Type} {resolves : α → List String → β → Prop}
    {itemsOf : β → List String}
    (hitems : ∀ entry names entry', resolves entry names entry' → itemsOf entry' = names)
    {entries : List α} {names : List String} {entries' : List β}
    (h : ResolvesEach resolves entries names entries') : entries'.flatMap itemsOf = names := by
  induction h with
  | nil => rfl
  | cons onFirst _ ih => rw [List.flatMap_cons, hitems _ _ _ onFirst, ih]

/-- So have those of a function. -/
theorem FunDef.Resolves.items_eq {env : Env} {fn : FunDef Location} {names : List String}
    {fn' : FunDef Typed} (h : fn.Resolves env names fn') : fn'.items = names :=
  h.body.items_eq

/-- So have those of a class. -/
theorem ClassDef.Resolves.items_eq {env : Env} {cls : ClassDef Location}
    {names : List String} {cls' : ClassDef Typed} (h : cls.Resolves env names cls') :
    cls'.items = names :=
  h.methods.flatMap_items_eq fun _ _ _ hfn => hfn.items_eq

/-- The items of a resolved program are the new names. -/
theorem Program.Resolves.items_eq {env : Env} {program : Program Location}
    {names : List String} {program' : Program Typed}
    (h : program.Resolves env names program') : program'.items = names := by
  rcases h.parts with ⟨funNames, classNames, stmtNames, rfl, onFuns, onClasses, onStmts⟩
  have hfuns := onFuns.flatMap_items_eq fun _ _ _ hfn => hfn.items_eq
  have hclasses := onClasses.flatMap_items_eq fun _ _ _ hcls => hcls.items_eq
  rw [Program.items, hfuns, hclasses, onStmts.items_eq]

end Offside
