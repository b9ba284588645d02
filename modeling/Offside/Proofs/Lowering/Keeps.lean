import Offside.Proofs.Lowering.LowersPrograms
import Offside.Proofs.Parsing.Definitions

/-!
# Programs keep the statements of their trees

No statement and no declaration of a tree is lost, doubled or moved on the way to its program.
The children of the root are declarations and then statements; each of the four lists of the
program goes through the children of its kind, from left to right.  The same holds of the blocks of
statements, functions and classes, at any depth, and there are no definitions at other places.

Main definitions:

- `Lowering.Image`: what a node, with the words that stand there, lowers to.
- `KeepsStmt`, `KeepsBlock`, `KeepsElse` and `KeepsTail`: statements with all blocks in them.
- `KeepsFun` and `KeepsClass`: functions and classes with their blocks.
- `KeepsProgram`: programs.

Main results:

- Theorems `LowersStmt.keeps`, `LowersFunDef.keeps` and `LowersClassDef.keeps`: what a phrase lowers
  to keeps the blocks of the phrase.
- Theorems `LowersStmt.definitionsIn_eq_nil` and `LowersClassDef.definitionsIn_eq`: the definitions
  in statements and classes.
- Theorem `parseProgram_keeps`: a program keeps what its tree holds.
-/

namespace Offside

open Phrase SyntaxNode Lowering

/-! ## What is kept -/

/-- A value is what a node lowers to, with the words that stand there in the source. -/
def Lowering.Image {α : Type} (l : Lowering) (lowers : Phrase → α → Prop) (node : SyntaxNode)
    (value : α) : Prop :=
  ∃ words, l.Wrote ⟨node, words⟩ ∧ lowers ⟨node, words⟩ value

mutual

/-- A statement is that of a node, with the statements of each block of the node. -/
inductive KeepsStmt (l : Lowering) : SyntaxNode → Stmt Location → Prop
  | plain {node stmt} (isPlain : node.kind.holdsStmts = false)
      (image : l.Image (LowersStmt l) node stmt) : KeepsStmt l node stmt
  | cond {node word condition body tail a e stmts otherwise} (isIf : node.kind = .ifStatement)
      (children : node.children = word :: condition :: body :: tail)
      (image : l.Image (LowersStmt l) node (.cond a e stmts otherwise))
      (onBody : KeepsBlock l body stmts) (onTail : KeepsTail l tail otherwise) :
      KeepsStmt l node (.cond a e stmts otherwise)
  | while {node word condition body a e stmts} (isWhile : node.kind = .whileStatement)
      (children : node.children = [word, condition, body])
      (image : l.Image (LowersStmt l) node (.while a e stmts))
      (onBody : KeepsBlock l body stmts) : KeepsStmt l node (.while a e stmts)
  | for {node word item inWord iterable body tail a name e stmts otherwise}
      (isFor : node.kind = .forStatement)
      (children : node.children = word :: item :: inWord :: iterable :: body :: tail)
      (image : l.Image (LowersStmt l) node (.for a name e stmts otherwise))
      (onBody : KeepsBlock l body stmts) (onElse : KeepsElse l tail otherwise) :
      KeepsStmt l node (.for a name e stmts otherwise)

/-- A block has one statement for each node behind its colon, in order. -/
inductive KeepsBlock (l : Lowering) : SyntaxNode → List (Stmt Location) → Prop
  | intro {node colon parts stmts} (isBody : node.kind = .body)
      (children : node.children = colon :: parts) (isColon : colon.kind = .punctuation)
      (onParts : List.Forall₂ (KeepsStmt l) parts stmts) : KeepsBlock l node stmts

/-- The block behind the word `else`, if there is one. -/
inductive KeepsElse (l : Lowering) : List SyntaxNode → List (Stmt Location) → Prop
  | nil : KeepsElse l [] []
  | else {word body stmts} (onBody : KeepsBlock l body stmts) : KeepsElse l [word, body] stmts

/-- The other branches of a conditional; each `elif` stands for a conditional of its own. -/
inductive KeepsTail (l : Lowering) : List SyntaxNode → List (Stmt Location) → Prop
  | otherwise {nodes stmts} (onElse : KeepsElse l nodes stmts) : KeepsTail l nodes stmts
  | elif {word condition body tail a e stmts otherwise}
      (located : Outcome.locate l.source word.span.start = .ok a)
      (onCondition : l.Image (Lowers l) condition e) (onBody : KeepsBlock l body stmts)
      (onTail : KeepsTail l tail otherwise) :
      KeepsTail l (word :: condition :: body :: tail) [.cond a e stmts otherwise]

end

/-- The block of a function is its variables, which are the assignments with a type, and behind
them its statements, of which none declares anything. -/
inductive KeepsFun (l : Lowering) : SyntaxNode → FunDef Location → Prop
  | intro {node fn header body colon before behind} (isFun : node.isFun = true)
      (image : l.Image (LowersFunDef l) node fn) (children : node.children = header ++ [body])
      (isHeader : ∀ part ∈ header, part.kind.holdsStmts = false) (isBody : body.kind = .body)
      (inside : body.children = colon :: (before ++ behind)) (isColon : colon.kind = .punctuation)
      (declared : ∀ part ∈ before, part.isTyped = true)
      (undeclared : ∀ part ∈ behind, part.isDeclaration = false)
      (inits : List.Forall₂ (l.Image (LowersVarInit l)) before fn.inits)
      (stmts : List.Forall₂ (KeepsStmt l) behind fn.body) : KeepsFun l node fn

/-- The block of a class is its fields and methods, where `pass` does not count.  A constructor is
added behind the methods if none of them is one. -/
inductive KeepsClass (l : Lowering) : SyntaxNode → ClassDef Location → Prop
  | intro {node cls header body colon parts methods} (isClass : node.isClass = true)
      (image : l.Image (LowersClassDef l) node cls) (children : node.children = header ++ [body])
      (isHeader : ∀ part ∈ header, part.kind.holdsStmts = false) (isBody : body.kind = .body)
      (inside : body.children = colon :: parts) (isColon : colon.kind = .punctuation)
      (members : ∀ part ∈ parts,
        part.isTyped = true ∨ part.isFun = true ∨ part.kind = .passStatement)
      (fields : List.Forall₂ (l.Image (LowersVarInit l)) (parts.filter isTyped) cls.fields)
      (onMethods : List.Forall₂ (KeepsFun l) (parts.filter SyntaxNode.isFun) methods)
      (constructed : cls.methods = methods ++
        if methods.any fun method => method.name = "__init__" then []
        else [Lowering.defaultInit cls.note cls.name cls.generics]) : KeepsClass l node cls

/-- The children of the root are declarations, and then statements.  The lists of the program go
through the children of each kind, and there are no further definitions in the tree than those
among the children and in the blocks of classes among them. -/
structure KeepsProgram (l : Lowering) (tree : SyntaxNode) (program : Program Location) : Prop where
  isScript : tree.kind = .script
  split : ∃ before behind, tree.children = before ++ behind ∧
    (∀ part ∈ before, part.isDeclaration = true) ∧ ∀ part ∈ behind, part.isDeclaration = false
  inits : List.Forall₂ (l.Image (LowersVarInit l)) (tree.children.filter isTyped) program.inits
  funs : List.Forall₂ (KeepsFun l) (tree.children.filter isFun) program.funs
  classes : List.Forall₂ (KeepsClass l) (tree.children.filter isClass) program.classes
  stmts : List.Forall₂ (KeepsStmt l) (tree.children.filter fun part => !part.isDeclaration)
    program.stmts
  definitions : tree.definitionsIn = tree.children.flatMap SyntaxNode.definitions

/-! ## Rows of images -/

section Rows

variable {α β : Type} {l : Lowering} {rel : SyntaxNode → α → Prop} {keeps : SyntaxNode → β → Prop}
  {nodes : List SyntaxNode} {values : List α}

/-- Phrases with their values are images one by one. -/
theorem images_of_forall₂ {lowers : Phrase → α → Prop} {parts : List Phrase}
    (h : List.Forall₂ lowers parts values) (hwrote : ∀ part ∈ parts, l.Wrote part) :
    List.Forall₂ (l.Image lowers) (parts.map Phrase.node) values := by
  rw [List.forall₂_map_left_iff]
  exact ((List.forall₂_and_left _ _).mpr ⟨hwrote, h⟩).imp fun part _ hpart => ⟨part.words, hpart⟩

/-- Some of the nodes of a row go together with what is taken out of the values of the row. -/
theorem forall₂_filter (h : List.Forall₂ rel nodes values) {kept : SyntaxNode → Bool}
    {taken : α → List β}
    (hkept : ∀ node value, rel node value →
      List.Forall₂ keeps ([node].filter kept) (taken value)) :
    List.Forall₂ keeps (nodes.filter kept) (values.flatMap taken) := by
  induction h with
  | nil => exact .nil
  | @cons node value nodes values hfirst _ ih =>
    rw [List.flatMap_cons, ← List.singleton_append, List.filter_append]
    exact List.rel_append (hkept node value hfirst) ih

/-- What is kept of a row of images is that of each. -/
theorem forall₂_filter_filterMap (h : List.Forall₂ rel nodes values) {kept : SyntaxNode → Bool}
    {taken : α → Option β}
    (hkept : ∀ node value, rel node value →
      List.Forall₂ keeps ([node].filter kept) (taken value).toList) :
    List.Forall₂ keeps (nodes.filter kept) (values.filterMap taken) := by
  rw [List.filterMap_eq_flatMap_toList]
  exact forall₂_filter h hkept

end Rows

/-! ## Statements -/

variable {l : Lowering} {phrase : Phrase}

mutual

/-- What a phrase lowers to keeps all blocks of the phrase. -/
theorem LowersStmt.keeps {phrase : Phrase} {stmt : Stmt Location} (h : LowersStmt l phrase stmt)
    (hwrote : l.Wrote phrase) : KeepsStmt l phrase.node stmt := by
  have himage : l.Image (LowersStmt l) phrase.node stmt := ⟨phrase.words, hwrote, h⟩
  match h with
  | .assign .. | .fieldAssign .. | .indexAssign .. | .expr .. | .returnNone .. | .return ..
  | .pass .. | .continue .. | .break .. => exact .plain rfl himage
  | .cond _ _ onBody onTail _ =>
    simp only [wrote_group, List.forall_mem_cons] at hwrote
    obtain ⟨-, -, hbody, htail⟩ := hwrote
    exact .cond rfl rfl himage (onBody.keeps hbody) (onTail.keeps htail)
  | .while _ _ onBody _ =>
    exact .while rfl rfl himage (onBody.keeps (wrote_group.mp hwrote _ (by simp)))
  | .for _ _ _ _ onBody onElse _ =>
    simp only [wrote_group, List.forall_mem_cons] at hwrote
    obtain ⟨-, -, -, -, hbody, htail⟩ := hwrote
    exact .for rfl rfl himage (onBody.keeps hbody) (onElse.keeps htail)

/-- A block keeps its statements. -/
theorem LowersBody.keeps {phrase : Phrase} {stmts : List (Stmt Location)}
    (h : LowersBody l phrase stmts) (hwrote : l.Wrote phrase) : KeepsBlock l phrase.node stmts := by
  match h with
  | .intro _ hlength onParts =>
    refine .intro rfl rfl rfl
      (List.forall₂_map_left_iff.mpr (List.forall₂_iff_zip.mpr ⟨hlength, ?_⟩))
    intro part stmt hpair
    exact (onParts hpair).keeps
      (wrote_group.mp hwrote part (List.mem_cons_of_mem _ (List.of_mem_zip hpair).1))

/-- So does the last branch. -/
theorem LowersElse.keeps {parts : List Phrase} {stmts : List (Stmt Location)}
    (h : LowersElse l parts stmts) (hwrote : ∀ part ∈ parts, l.Wrote part) :
    KeepsElse l (parts.map Phrase.node) stmts := by
  match h with
  | .nil => exact .nil
  | .else _ onBody => exact .else (onBody.keeps (hwrote _ (by simp)))

/-- So do the branches behind the first one. -/
theorem LowersTail.keeps {parts : List Phrase} {stmts : List (Stmt Location)}
    (h : LowersTail l parts stmts) (hwrote : ∀ part ∈ parts, l.Wrote part) :
    KeepsTail l (parts.map Phrase.node) stmts := by
  match h with
  | .otherwise onElse => exact .otherwise (onElse.keeps hwrote)
  | .elif _ onCondition onBody onTail located =>
    simp only [List.forall_mem_cons] at hwrote
    obtain ⟨-, hcondition, hbody, htail⟩ := hwrote
    exact .elif located ⟨_, hcondition, onCondition⟩ (onBody.keeps hbody) (onTail.keeps htail)

end

/-- A statement declares nothing. -/
theorem LowersStmt.isDeclaration_eq_false {stmt : Stmt Location} (h : LowersStmt l phrase stmt) :
    phrase.node.isDeclaration = false := by
  cases h <;> rfl

/-! ## Definitions in statements -/

section Definitions

variable {source : Source}

/-- The parts of a phrase have the content of their kinds. -/
theorem allHaveContent_parts {kind : SyntaxKind} {parts : List Phrase}
    (h : (group kind parts).node.AllHaveContent source) :
    ∀ part ∈ parts, part.node.AllHaveContent source :=
  fun _ hpart => h.of_mem (List.mem_map_of_mem hpart)

/-- A node that is no definition has no definitions in it if its parts have none. -/
theorem definitionsIn_group {kind : SyntaxKind} {parts : List Phrase}
    (hkind : (group kind parts).node.isDefinition = false)
    (hcontent : (group kind parts).node.AllHaveContent source)
    (h : ∀ part ∈ parts, part.node.AllHaveContent source → part.node.definitionsIn = []) :
    (group kind parts).node.definitionsIn = [] := by
  rw [definitionsIn_of_isDefinition hkind, List.flatMap_eq_nil_iff]
  exact List.forall_mem_map.mpr fun part hpart =>
    h part hpart (allHaveContent_parts hcontent part hpart)

/-- The last child of a phrase is its last part. -/
theorem children_group_concat (kind : SyntaxKind) (header : List Phrase) (body : Phrase) :
    (group kind (header ++ [body])).node.children = header.map Phrase.node ++ [body.node] :=
  List.map_append

/-- The definitions in a definition are itself and those in its block. -/
theorem definitionsIn_group_concat {kind : SyntaxKind} {header : List Phrase} {body : Phrase}
    (hkind : (group kind (header ++ [body])).node.isDefinition = true)
    (hcontent : (group kind (header ++ [body])).node.AllHaveContent source)
    (hheader : ∀ part ∈ header, part.kind.holdsStmts = false) :
    (group kind (header ++ [body])).node.definitionsIn =
      (group kind (header ++ [body])).node :: body.node.definitionsIn := by
  have hparts := List.forall_mem_append.mp (allHaveContent_parts hcontent)
  refine definitionsIn_of_block hkind (children_group_concat kind header body) ?_
  exact List.forall_mem_map.mpr fun part hpart =>
    definitionsIn_of_kind (hheader part hpart) (hparts.1 part hpart)

/-- The definitions of a class are itself and the functions in its block. -/
theorem definitions_group_concat (kind : SyntaxKind) {header : List Phrase} (body : Phrase)
    (hkind : (group kind (header ++ [body])).node.isClass = true)
    (hheader : ∀ part ∈ header, part.kind.holdsStmts = false) (isBody : body.kind = .body) :
    (group kind (header ++ [body])).node.definitions =
      (group kind (header ++ [body])).node :: body.node.children.filter isFun := by
  refine definitions_of_block hkind (children_group_concat kind header body) ?_ isBody
  refine List.forall_mem_map.mpr fun part hpart hbody => ?_
  have hholds := hheader part hpart
  rw [Phrase.kind, hbody] at hholds
  cases hholds

/-- What starts with the bracket of a comprehension holds no statements. -/
theorem holdsStmts_of_comprehensionOpening {kind : SyntaxKind} {opening : TokenKind}
    (h : comprehensionOpening kind = some opening) : kind.holdsStmts = false := by
  cases kind <;> first | rfl | cases h

/-- An expression has no definitions in it. -/
theorem Lowers.definitionsIn_eq_nil {e : Expr Location} (h : Lowers l phrase e)
    (hcontent : phrase.node.AllHaveContent source) : phrase.node.definitionsIn = [] := by
  refine definitionsIn_of_kind ?_ hcontent
  cases h with
  | @literal _ value _ onLiteral => cases onLiteral <;> rfl
  | comprehension isOpening | filtered isOpening =>
    exact holdsStmts_of_comprehensionOpening isOpening
  | _ => rfl

mutual

/-- A statement has no definitions in it. -/
theorem LowersStmt.definitionsIn_eq_nil {phrase : Phrase} {stmt : Stmt Location}
    (h : LowersStmt l phrase stmt) (hcontent : phrase.node.AllHaveContent source) :
    phrase.node.definitionsIn = [] := by
  match h with
  | .assign .. | .fieldAssign .. | .indexAssign .. | .expr .. | .returnNone .. | .return ..
  | .pass .. | .continue .. | .break .. => exact definitionsIn_of_kind rfl hcontent
  | .cond _ onCondition onBody onTail _ =>
    refine definitionsIn_group rfl hcontent ?_
    simp only [List.forall_mem_cons]
    exact ⟨definitionsIn_of_kind rfl, onCondition.definitionsIn_eq_nil,
      onBody.definitionsIn_eq_nil, onTail.definitionsIn_eq_nil⟩
  | .while _ onCondition onBody _ =>
    refine definitionsIn_group rfl hcontent ?_
    simp only [List.forall_mem_cons]
    exact ⟨definitionsIn_of_kind rfl, onCondition.definitionsIn_eq_nil,
      onBody.definitionsIn_eq_nil, nofun⟩
  | .for _ _ _ onIterable onBody onElse _ =>
    refine definitionsIn_group rfl hcontent ?_
    simp only [List.forall_mem_cons]
    exact ⟨definitionsIn_of_kind rfl, definitionsIn_of_kind rfl, definitionsIn_of_kind rfl,
      onIterable.definitionsIn_eq_nil, onBody.definitionsIn_eq_nil, onElse.definitionsIn_eq_nil⟩

/-- A block of statements has no definition in it. -/
theorem LowersBody.definitionsIn_eq_nil {phrase : Phrase} {stmts : List (Stmt Location)}
    (h : LowersBody l phrase stmts) (hcontent : phrase.node.AllHaveContent source) :
    phrase.node.definitionsIn = [] := by
  match h with
  | .intro _ hlength onParts =>
    refine definitionsIn_group rfl hcontent ?_
    refine List.forall_mem_cons.mpr ⟨definitionsIn_of_kind rfl, fun part hpart hinside => ?_⟩
    rw [← List.map_fst_zip (Nat.le_of_eq hlength)] at hpart
    obtain ⟨⟨_, stmt⟩, hpair, rfl⟩ := List.mem_map.mp hpart
    exact (onParts hpair).definitionsIn_eq_nil hinside

/-- Neither has a last branch. -/
theorem LowersElse.definitionsIn_eq_nil {parts : List Phrase} {stmts : List (Stmt Location)}
    (h : LowersElse l parts stmts) :
    ∀ part ∈ parts, part.node.AllHaveContent source → part.node.definitionsIn = [] := by
  match h with
  | .nil => exact nofun
  | .else _ onBody =>
    simp only [List.forall_mem_cons]
    exact ⟨definitionsIn_of_kind rfl, onBody.definitionsIn_eq_nil, nofun⟩

/-- Neither have the branches behind the first one. -/
theorem LowersTail.definitionsIn_eq_nil {parts : List Phrase} {stmts : List (Stmt Location)}
    (h : LowersTail l parts stmts) :
    ∀ part ∈ parts, part.node.AllHaveContent source → part.node.definitionsIn = [] := by
  match h with
  | .otherwise onElse => exact onElse.definitionsIn_eq_nil
  | .elif _ onCondition onBody onTail _ =>
    simp only [List.forall_mem_cons]
    exact ⟨definitionsIn_of_kind rfl, onCondition.definitionsIn_eq_nil,
      onBody.definitionsIn_eq_nil, onTail.definitionsIn_eq_nil⟩

end

end Definitions

/-! ## Variables -/

section Variables

variable {source : Source} {init : VarInit Location}

/-- A variable is declared by an assignment with a type. -/
theorem LowersVarInit.declares (h : LowersVarInit l phrase init) :
    phrase.node.isTyped = true ∧ phrase.node.isFun = false ∧ phrase.node.isClass = false := by
  rcases h with ⟨_, ⟨_, _⟩, _, _, _⟩
  exact ⟨rfl, rfl, rfl⟩

/-- Neither has a declared variable. -/
theorem LowersVarInit.definitionsIn_eq_nil (h : LowersVarInit l phrase init)
    (hcontent : phrase.node.AllHaveContent source) : phrase.node.definitionsIn = [] := by
  cases h
  exact definitionsIn_of_kind rfl hcontent

end Variables

/-! ## Functions -/

section Functions

variable {source : Source} {fn : FunDef Location}

/-- A function is declared by the definition of a function. -/
theorem LowersFunDef.declares (h : LowersFunDef l phrase fn) :
    phrase.node.isTyped = false ∧ phrase.node.isFun = true ∧ phrase.node.isClass = false := by
  cases h
  exact ⟨rfl, rfl, rfl⟩

/-- No statement stands in front of the block of a function. -/
theorem holdsStmts_of_funHeader {word name : Token} {list : Phrase} {result : Option Phrase}
    {parameters : List Parameter} {ret : Ty} (onList : LowersParamList list parameters)
    (onResult : LowersResult result ret) :
    ∀ part ∈ ofToken .keyword word :: ofToken .variableName name :: list :: Option.toList result,
      part.kind.holdsStmts = false := by
  simp only [List.forall_mem_cons]
  refine ⟨rfl, rfl, by cases onList; rfl, ?_⟩
  cases onResult with
  | none => exact nofun
  | some onType =>
    cases onType
    exact List.forall_mem_singleton.mpr rfl

/-- A function keeps its variables and its statements. -/
theorem LowersFunDef.keeps (h : LowersFunDef l phrase fn) (hwrote : l.Wrote phrase) :
    KeepsFun l phrase.node fn := by
  have himage : l.Image (LowersFunDef l) phrase.node fn := ⟨phrase.words, hwrote, h⟩
  rcases h with @⟨word, name, list, result, body, _, _, inits, stmts, _, _, _, onList, onResult,
    onBody, _⟩
  have hbody : l.Wrote body := wrote_group.mp hwrote body (by simp)
  have hchildren := children_group_concat .functionDefinition
    (ofToken .keyword word :: ofToken .variableName name :: list :: Option.toList result) body
  rcases onBody with @⟨colon, before, behind, _, _, _, onInits, onStmts⟩
  obtain ⟨-, hparts⟩ := List.forall_mem_cons.mp (wrote_group.mp hbody)
  obtain ⟨hbefore, hbehind⟩ := List.forall_mem_append.mp hparts
  have htyped (part : Phrase) (hpart : part ∈ before) : part.node.isTyped = true := by
    obtain ⟨init, hinit⟩ := Walk.exists_of_forall₂ onInits hpart
    exact hinit.declares.1
  have huntyped (part : Phrase) (hpart : part ∈ behind) : part.node.isDeclaration = false := by
    obtain ⟨stmt, hstmt⟩ := Walk.exists_of_forall₂ onStmts hpart
    exact hstmt.isDeclaration_eq_false
  have hstmts := (images_of_forall₂ onStmts hbehind).imp
    fun _ _ ⟨_, hwrote, hstmt⟩ => hstmt.keeps hwrote
  exact .intro rfl himage hchildren
    (List.forall_mem_map.mpr (holdsStmts_of_funHeader onList onResult)) rfl
    (congrArg (List.cons _) List.map_append) rfl (List.forall_mem_map.mpr htyped)
    (List.forall_mem_map.mpr huntyped) (images_of_forall₂ onInits hbefore) hstmts

/-- The only definition in a function is itself. -/
theorem LowersFunDef.definitionsIn_eq (h : LowersFunDef l phrase fn)
    (hcontent : phrase.node.AllHaveContent source) : phrase.node.definitionsIn = [phrase.node] := by
  rcases h with @⟨word, name, list, result, body, _, _, inits, stmts, _, _, _, onList, onResult,
    onBody, _⟩
  have hbody : body.node.definitionsIn = [] := by
    have hinside := allHaveContent_parts hcontent body (by simp)
    rcases onBody with @⟨colon, before, behind, _, _, _, onInits, onStmts⟩
    refine definitionsIn_group rfl hinside ?_
    refine List.forall_mem_cons.mpr ⟨definitionsIn_of_kind rfl, fun part hpart => ?_⟩
    rcases List.mem_append.mp hpart with hbefore | hbehind
    · obtain ⟨init, hinit⟩ := Walk.exists_of_forall₂ onInits hbefore
      exact hinit.definitionsIn_eq_nil
    · obtain ⟨stmt, hstmt⟩ := Walk.exists_of_forall₂ onStmts hbehind
      exact hstmt.definitionsIn_eq_nil
  have hfound := definitionsIn_group_concat rfl hcontent (holdsStmts_of_funHeader onList onResult)
  rwa [hbody] at hfound

end Functions

/-! ## Classes -/

section Classes

variable {source : Source} {cls : ClassDef Location} {members : List ClassMember}

/-- A class is declared by the definition of a class. -/
theorem LowersClassDef.declares (h : LowersClassDef l phrase cls) :
    phrase.node.isTyped = false ∧ phrase.node.isFun = false ∧ phrase.node.isClass = true := by
  cases h
  exact ⟨rfl, rfl, rfl⟩

/-- No statement stands in front of the block of a class. -/
theorem holdsStmts_of_classHeader {word name : Token} {bases : Option Phrase}
    {generics : List String} (onBases : LowersBases bases generics) :
    ∀ part ∈ ofToken .keyword word :: ofToken .variableName name :: Option.toList bases,
      part.kind.holdsStmts = false := by
  simp only [List.forall_mem_cons]
  refine ⟨rfl, rfl, ?_⟩
  cases onBases with
  | none => exact nofun
  | some => exact List.forall_mem_singleton.mpr rfl

/-- The field that a part of a class is, if it is one. -/
theorem LowersMember.fields (h : LowersMember l phrase members) (hwrote : l.Wrote phrase) :
    List.Forall₂ (l.Image (LowersVarInit l)) ([phrase.node].filter isTyped)
      (members.filterMap ClassMember.field?) := by
  cases h with
  | field onInit =>
    have himage : l.Image (LowersVarInit l) phrase.node _ := ⟨phrase.words, hwrote, onInit⟩
    simpa [onInit.declares, ClassMember.field?] using himage
  | method onFun => simp [onFun.declares, ClassMember.field?]
  | pass => exact .nil

/-- The method that a part of a class is, if it is one. -/
theorem LowersMember.methods (h : LowersMember l phrase members) (hwrote : l.Wrote phrase) :
    List.Forall₂ (KeepsFun l) ([phrase.node].filter isFun)
      (members.filterMap ClassMember.method?) := by
  cases h with
  | field onInit => simp [onInit.declares, ClassMember.method?]
  | method onFun => simpa [onFun.declares, ClassMember.method?] using onFun.keeps hwrote
  | pass => exact .nil

/-- The only definition in a part of a class is a method. -/
theorem LowersMember.definitionsIn_eq (h : LowersMember l phrase members)
    (hcontent : phrase.node.AllHaveContent source) :
    phrase.node.definitionsIn = [phrase.node].filter isFun := by
  cases h with
  | field onInit => simp [onInit.definitionsIn_eq_nil hcontent, onInit.declares]
  | method onFun => simp [onFun.definitionsIn_eq hcontent, onFun.declares]
  | pass => exact definitionsIn_of_kind rfl hcontent

/-- A class keeps its fields and methods. -/
theorem LowersClassDef.keeps (h : LowersClassDef l phrase cls) (hwrote : l.Wrote phrase) :
    KeepsClass l phrase.node cls := by
  have himage : l.Image (LowersClassDef l) phrase.node cls := ⟨phrase.words, hwrote, h⟩
  rcases h with @⟨word, name, bases, colon, parts, generics, groups, a, _, _, onBases, _, onParts,
    _⟩
  have hbody : l.Wrote (group .body (ofToken .punctuation colon :: parts)) :=
    wrote_group.mp hwrote _ (by simp)
  obtain ⟨-, hparts⟩ := List.forall_mem_cons.mp (wrote_group.mp hbody)
  have hgroups := images_of_forall₂ onParts hparts
  have hchildren := children_group_concat .classDefinition
    (ofToken .keyword word :: ofToken .variableName name :: Option.toList bases)
    (group .body (ofToken .punctuation colon :: parts))
  have hmembers (part : Phrase) (hpart : part ∈ parts) :
      part.node.isTyped = true ∨ part.node.isFun = true ∨ part.node.kind = .passStatement := by
    obtain ⟨members, hmember⟩ := Walk.exists_of_forall₂ onParts hpart
    cases hmember with
    | field onInit => exact .inl onInit.declares.1
    | method onFun => exact .inr (.inl onFun.declares.2.1)
    | pass => exact .inr (.inr rfl)
  have hfields := forall₂_filter hgroups fun _ _ ⟨_, hwrote, hmember⟩ => hmember.fields hwrote
  have hmethods := forall₂_filter hgroups fun _ _ ⟨_, hwrote, hmember⟩ => hmember.methods hwrote
  simp only [List.flatMap_def, ← List.filterMap_flatten] at hfields hmethods
  exact .intro rfl himage hchildren
    (List.forall_mem_map.mpr (holdsStmts_of_classHeader onBases)) rfl rfl rfl
    (List.forall_mem_map.mpr hmembers) hfields hmethods rfl

/-- The definitions in a class are itself and its methods. -/
theorem LowersClassDef.definitionsIn_eq (h : LowersClassDef l phrase cls)
    (hcontent : phrase.node.AllHaveContent source) :
    phrase.node.definitionsIn = phrase.node.definitions := by
  rcases h with @⟨word, name, bases, colon, parts, generics, groups, a, _, _, onBases, _, onParts,
    _⟩
  have hbody : (group .body (ofToken .punctuation colon :: parts)).node.definitionsIn =
      (group .body (ofToken .punctuation colon :: parts)).node.children.filter isFun := by
    have hinside := allHaveContent_parts hcontent
      (group .body (ofToken .punctuation colon :: parts)) (by simp)
    obtain ⟨hcolon, hparts⟩ := List.forall_mem_cons.mp (allHaveContent_parts hinside)
    rw [definitionsIn_of_isDefinition rfl]
    refine flatMap_definitionsIn (List.forall_mem_cons.mpr ⟨definitionsIn_of_kind rfl hcolon, ?_⟩)
    refine List.forall_mem_map.mpr fun part hpart => ?_
    obtain ⟨members, hmember⟩ := Walk.exists_of_forall₂ onParts hpart
    exact hmember.definitionsIn_eq (hparts part hpart)
  have hheader : ∀ part ∈ ofToken .keyword word :: ofToken .variableName name ::
      Option.toList bases, part.kind.holdsStmts = false := holdsStmts_of_classHeader onBases
  have hfound := definitionsIn_group_concat rfl hcontent hheader
  have hdefinitions := definitions_group_concat .classDefinition
    (group .body (ofToken .punctuation colon :: parts)) rfl hheader rfl
  rw [hbody, ← hdefinitions] at hfound
  exact hfound

end Classes

/-! ## Programs -/

section Programs

variable {source : Source} {declaration : Declaration} {program : Program Location}

/-- What is lowered to a declaration is the node of one. -/
theorem LowersDeclaration.isDeclaration_eq_true (h : LowersDeclaration l phrase declaration) :
    phrase.node.isDeclaration = true := by
  cases h with
  | init onInit => simp [isDeclaration, onInit.declares]
  | «fun» onFun => simp [isDeclaration, isDefinition, onFun.declares]
  | cls onClass => simp [isDeclaration, isDefinition, onClass.declares]

/-- The variable that a phrase declares, if it declares one. -/
theorem LowersDeclaration.inits (h : LowersDeclaration l phrase declaration)
    (hwrote : l.Wrote phrase) :
    List.Forall₂ (l.Image (LowersVarInit l)) ([phrase.node].filter isTyped)
      declaration.init?.toList := by
  cases h with
  | init onInit =>
    have himage : l.Image (LowersVarInit l) phrase.node _ := ⟨phrase.words, hwrote, onInit⟩
    simpa [onInit.declares, Declaration.init?] using himage
  | «fun» onFun => simp [onFun.declares, Declaration.init?]
  | cls onClass => simp [onClass.declares, Declaration.init?]

/-- The function that a phrase declares, if it declares one. -/
theorem LowersDeclaration.funs (h : LowersDeclaration l phrase declaration)
    (hwrote : l.Wrote phrase) :
    List.Forall₂ (KeepsFun l) ([phrase.node].filter isFun) declaration.fun?.toList := by
  cases h with
  | init onInit => simp [onInit.declares, Declaration.fun?]
  | «fun» onFun => simpa [onFun.declares, Declaration.fun?] using onFun.keeps hwrote
  | cls onClass => simp [onClass.declares, Declaration.fun?]

/-- The class that a phrase declares, if it declares one. -/
theorem LowersDeclaration.classes (h : LowersDeclaration l phrase declaration)
    (hwrote : l.Wrote phrase) :
    List.Forall₂ (KeepsClass l) ([phrase.node].filter isClass) declaration.cls?.toList := by
  cases h with
  | init onInit => simp [onInit.declares, Declaration.cls?]
  | «fun» onFun => simp [onFun.declares, Declaration.cls?]
  | cls onClass => simpa [onClass.declares, Declaration.cls?] using onClass.keeps hwrote

/-- The definitions in a declaration are those that it makes and its methods. -/
theorem LowersDeclaration.definitionsIn_eq (h : LowersDeclaration l phrase declaration)
    (hcontent : phrase.node.AllHaveContent source) :
    phrase.node.definitionsIn = phrase.node.definitions := by
  cases h with
  | init onInit =>
    have hnone : phrase.node.isDefinition = false := by simp [isDefinition, onInit.declares]
    rw [onInit.definitionsIn_eq_nil hcontent, definitions_of_isDefinition hnone]
  | «fun» onFun =>
    rw [onFun.definitionsIn_eq hcontent]
    simp [definitions, isDefinition, onFun.declares]
  | cls onClass => exact onClass.definitionsIn_eq hcontent

/-- The definitions in a program are its declarations and their methods. -/
theorem LowersProgram.definitionsIn_eq (h : LowersProgram l phrase program)
    (hcontent : phrase.node.AllHaveContent source) :
    phrase.node.definitionsIn = phrase.node.children.flatMap SyntaxNode.definitions := by
  rcases h with @⟨before, behind, declarations, stmts, a, isScript, hchildren, _, _, onBefore,
    onBehind⟩
  have hscript : phrase.node.isDefinition = false := by
    simp [isDefinition, isFun, isClass, show phrase.node.kind = .script from isScript]
  rw [definitionsIn_of_isDefinition hscript]
  refine List.flatMap_congr fun child hchild => ?_
  have hinside := hcontent.of_mem hchild
  rw [hchildren, List.map_append] at hchild
  rcases List.mem_append.mp hchild with hmem | hmem
  · obtain ⟨part, hpart, rfl⟩ := List.mem_map.mp hmem
    obtain ⟨declaration, hdeclaration⟩ := Walk.exists_of_forall₂ onBefore hpart
    exact hdeclaration.definitionsIn_eq hinside
  · obtain ⟨part, hpart, rfl⟩ := List.mem_map.mp hmem
    obtain ⟨stmt, hstmt⟩ := Walk.exists_of_forall₂ onBehind hpart
    have hnone := (Bool.or_eq_false_iff.mp hstmt.isDeclaration_eq_false).2
    rw [hstmt.definitionsIn_eq_nil hinside, definitions_of_isDefinition hnone]

/-- A program keeps what its tree holds. -/
theorem LowersProgram.keeps (h : LowersProgram l phrase program) (hwrote : l.Wrote phrase)
    (hcontent : phrase.node.AllHaveContent source) : KeepsProgram l phrase.node program := by
  have hdefinitions := h.definitionsIn_eq hcontent
  rcases h with @⟨before, behind, declarations, stmts, a, isScript, hchildren, hwords, _, onBefore,
    onBehind⟩
  have hparts := List.forall_mem_append.mp (hwrote.of_words hwords)
  have hbefore := images_of_forall₂ onBefore hparts.1
  have hbehind := images_of_forall₂ onBehind hparts.2
  have hdeclared : ∀ part ∈ before.map Phrase.node, part.isDeclaration = true := by
    refine List.forall_mem_map.mpr fun part hpart => ?_
    obtain ⟨declaration, hdeclaration⟩ := Walk.exists_of_forall₂ onBefore hpart
    exact hdeclaration.isDeclaration_eq_true
  have hundeclared : ∀ part ∈ behind.map Phrase.node, part.isDeclaration = false := by
    refine List.forall_mem_map.mpr fun part hpart => ?_
    obtain ⟨stmt, hstmt⟩ := Walk.exists_of_forall₂ onBehind hpart
    exact hstmt.isDeclaration_eq_false
  rw [List.map_append] at hchildren
  refine ⟨isScript, ⟨_, _, hchildren, hdeclared, hundeclared⟩, ?_, ?_, ?_, ?_, hdefinitions⟩
  · rw [hchildren, filter_of_undeclared hundeclared fun node h => by simp [isDeclaration, h]]
    exact forall₂_filter_filterMap hbefore fun _ _ himage => himage.elim fun _ h => h.2.inits h.1
  · rw [hchildren, filter_of_undeclared hundeclared fun node h => by
      simp [isDeclaration, isDefinition, h]]
    exact forall₂_filter_filterMap hbefore fun _ _ himage => himage.elim fun _ h => h.2.funs h.1
  · rw [hchildren, filter_of_undeclared hundeclared fun node h => by
      simp [isDeclaration, isDefinition, h]]
    exact forall₂_filter_filterMap hbefore fun _ _ himage => himage.elim fun _ h => h.2.classes h.1
  · rw [hchildren, filter_not_isDeclaration hdeclared hundeclared]
    exact hbehind.imp fun _ _ himage => himage.elim fun _ h => h.2.keeps h.1

end Programs

/-- No statement or declaration of a source is lost, doubled or moved in its program. -/
theorem parseProgram_keeps {source : Source} {program : Program Location}
    (h : parseProgram source = .ok program) : ∃ tokens tree, tokenize source = .ok tokens ∧
      parse tokens source = .ok tree ∧ KeepsProgram (ofTree source tree) tree program := by
  obtain ⟨tokens, tree, htokens, htree, hwrote, hprogram⟩ := parseProgram_lowers h
  have hcontent := allHaveContent_of_parse htokens htree
  exact ⟨tokens, tree, htokens, htree, hprogram.keeps hwrote hcontent⟩

/-- A class with a method, a function with a variable, and blocks inside one another. -/
theorem parseProgram_keeps_nestedBlocks : ∃ source : Source,
    source = ("class C(object):\n  def m(c:C): pass\ndef f():\n  x:int = 1\n  for i in x:\n" ++
      "    if x: f()\n    elif i: pass\n  else: x\nf()").toList ∧
    ∃ program tokens tree, parseProgram source = .ok program ∧ tokenize source = .ok tokens ∧
      parse tokens source = .ok tree ∧ KeepsProgram (ofTree source tree) tree program := by
  have hparsed (source : Source) (hparse : (parseProgram source).isOk = true) :
      ∃ program tokens tree, parseProgram source = .ok program ∧ tokenize source = .ok tokens ∧
        parse tokens source = .ok tree ∧ KeepsProgram (ofTree source tree) tree program := by
    cases hprogram : parseProgram source with
    | error failure =>
      rw [hprogram] at hparse
      cases hparse
    | ok program =>
      obtain ⟨tokens, tree, htokens, htree, hkeeps⟩ := parseProgram_keeps hprogram
      exact ⟨program, tokens, tree, rfl, htokens, htree, hkeeps⟩
  exact ⟨_, rfl, hparsed _ (by decide +kernel)⟩

end Offside
