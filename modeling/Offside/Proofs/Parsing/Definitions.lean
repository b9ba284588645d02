import Offside.Proofs.Parsing.Contents

/-!
# Places of statements and definitions

Statements stand in scripts and blocks only, and blocks in statements of few kinds.  Below any
other node of a tree there is no statement, so that the definitions of functions and classes that
stand below it need not be looked for.

Main definitions:

- `SyntaxNode.isTyped`, `isFun`, `isClass` and `isDeclaration`: the nodes that declare something.
- `SyntaxNode.isDefinition`: the nodes that define a function or a class.
- `SyntaxNode.definitions`: a definition, and the functions in the block of a class.

Main results:

- Theorem `Content.Covers.of_within`: the kinds of the nodes that a content asks for.
- Theorem `definitionsIn_of_kind`: where no statement stands below a node, no definition does.
-/

namespace Offside

/-! ## Declarations -/

namespace SyntaxNode

/-- An assignment with a type, which declares a variable. -/
def isTyped (node : SyntaxNode) : Bool :=
  node.kind = .assignStatement && node.children[1]?.any fun part => part.kind = .typeDef

/-- The definition of a function. -/
def isFun (node : SyntaxNode) : Bool := node.kind = .functionDefinition

/-- The definition of a class. -/
def isClass (node : SyntaxNode) : Bool := node.kind = .classDefinition

/-- The definition of a function or a class. -/
def isDefinition (node : SyntaxNode) : Bool := node.isFun || node.isClass

/-- A node that declares a variable, a function or a class. -/
def isDeclaration (node : SyntaxNode) : Bool := node.isTyped || node.isDefinition

/-- A definition, and behind it the functions in the block of a class; nothing for other nodes. -/
def definitions (node : SyntaxNode) : List SyntaxNode :=
  [node].filter isDefinition ++ if node.isClass then
    (node.children.filter fun part => part.kind = .body).flatMap fun body =>
      body.children.filter isFun
  else []

/-- In a row of declarations with other nodes behind, what declares something is in front. -/
theorem filter_of_undeclared {before behind : List SyntaxNode} {kept : SyntaxNode → Bool}
    (hbehind : ∀ part ∈ behind, part.isDeclaration = false)
    (hkept : ∀ node, kept node = true → node.isDeclaration = true) :
    (before ++ behind).filter kept = before.filter kept := by
  have hnone : behind.filter kept = [] := List.filter_eq_nil_iff.mpr fun part hpart h => by
    simpa [hbehind part hpart] using hkept part h
  rw [List.filter_append, hnone, List.append_nil]

/-- In such a row, what declares nothing is behind. -/
theorem filter_not_isDeclaration {before behind : List SyntaxNode}
    (hbefore : ∀ part ∈ before, part.isDeclaration = true)
    (hbehind : ∀ part ∈ behind, part.isDeclaration = false) :
    (before ++ behind).filter (fun part => !part.isDeclaration) = behind := by
  have hnone : (before.filter fun part => !part.isDeclaration) = [] :=
    List.filter_eq_nil_iff.mpr fun part hpart => by simp [hbefore part hpart]
  have hall : (behind.filter fun part => !part.isDeclaration) = behind :=
    List.filter_eq_self.mpr fun part hpart => by simp [hbehind part hpart]
  rw [List.filter_append, hnone, hall, List.nil_append]

/-- All definitions in a tree. -/
def definitionsIn (tree : SyntaxNode) : List SyntaxNode := tree.nodes.filter isDefinition

theorem definitionsIn_eq (tree : SyntaxNode) :
    tree.definitionsIn = [tree].filter isDefinition ++ tree.children.flatMap definitionsIn := by
  rw [definitionsIn, nodes_eq, nodesOf_eq_flatMap, ← List.singleton_append, List.filter_append,
    List.filter_flatMap]
  rfl

end SyntaxNode

/-! ## Kinds below which statements stand -/

/-- The kinds of nodes below which statements may stand. -/
def SyntaxKind.holdsStmts : SyntaxKind → Bool
  | .script | .body | .ifStatement | .whileStatement | .forStatement
  | .functionDefinition | .classDefinition => true
  | _ => false

/-- All nodes that a content asks for are of an accepted kind. -/
def Content.Within (accepts : SyntaxKind → Prop) : Content → Prop
  | .nothing => True
  | .leaf _ kind | .branch kind _ => accepts kind
  | .one accepted => ∀ kind, accepted kind = true → accepts kind
  | .both first second | .either first second => first.Within accepts ∧ second.Within accepts
  | .many content => content.Within accepts

theorem Content.Covers.of_within {source : Source} {accepts : SyntaxKind → Prop} {content : Content}
    {nodes : List SyntaxNode} (h : content.Covers source nodes) (hwithin : content.Within accepts) :
    ∀ node ∈ nodes, accepts node.kind := by
  induction content generalizing nodes with
  | nothing =>
    obtain rfl := h
    exact List.forall_mem_nil _
  | leaf _ kind =>
    obtain ⟨_, _, -, -, rfl⟩ := h
    exact List.forall_mem_singleton.mpr hwithin
  | one accepted =>
    obtain ⟨node, haccepted, rfl⟩ := h
    exact List.forall_mem_singleton.mpr (hwithin _ haccepted)
  | branch kind content _ =>
    obtain ⟨node, rfl, -, rfl⟩ := h
    exact List.forall_mem_singleton.mpr hwithin
  | both first second ihFirst ihSecond =>
    obtain ⟨before, behind, hfirst, hsecond, rfl⟩ := h
    exact List.forall_mem_append.mpr ⟨ihFirst hfirst hwithin.1, ihSecond hsecond hwithin.2⟩
  | either first second ihFirst ihSecond =>
    exact h.elim (ihFirst · hwithin.1) (ihSecond · hwithin.2)
  | many content ih =>
    obtain ⟨rows, hrows, rfl⟩ := h
    intro node hnode
    obtain ⟨row, hrow, hnode⟩ := List.mem_flatten.mp hnode
    exact ih (hrows row hrow) hwithin node hnode

theorem holdsStmts_of_isExpr {kind : SyntaxKind} (h : kind.isExpr = true) :
    kind.holdsStmts = false := by
  cases kind <;> first | rfl | cases h

/-- Where no statement stands, all children are of kinds below which none stands. -/
theorem within_of_holdsStmts {kind : SyntaxKind} (hkind : kind.holdsStmts = false) :
    ∀ content ∈ Content.table kind, content.Within fun kind => kind.holdsStmts = false := by
  have hexpr : Content.expr.Within fun kind => kind.holdsStmts = false :=
    fun _ => holdsStmts_of_isExpr
  cases kind <;> first
    | (cases hkind; done)
    | simp [Content.table, Content.row, Content.optional, Content.typed, Content.parameters,
        Content.comprehension, Content.element, Content.oneOf, Content.mark, Content.word,
        Content.assign, Content.prefixOperator, Content.name, Content.node, Content.Within,
        hexpr] <;> decide

/-! ## Definitions below a node -/

namespace SyntaxNode

variable {source : Source} {node child : SyntaxNode}

theorem AllHaveContent.of_mem (h : node.AllHaveContent source) (hchild : child ∈ node.children) :
    child.AllHaveContent source :=
  fun below hbelow => h below (mem_nodes_of_mem hchild hbelow)

/-- A node whose kind is not that of a definition. -/
theorem isDefinition_of_kind (hkind : node.kind.holdsStmts = false) :
    node.isDefinition = false := by
  rcases node with ⟨kind, span, children⟩
  cases kind <;> first | rfl | cases hkind

/-- Below a node that is no definition there are the definitions in its children. -/
theorem definitionsIn_of_isDefinition (h : node.isDefinition = false) :
    node.definitionsIn = node.children.flatMap definitionsIn := by
  rw [definitionsIn_eq, List.filter_cons_of_neg (by simp [h])]
  rfl

/-- There is no definition where no statement stands. -/
theorem definitionsIn_of_kind (hkind : node.kind.holdsStmts = false)
    (h : node.AllHaveContent source) : node.definitionsIn = [] := by
  induction hsize : node.size using Nat.strongRecOn generalizing node with
  | ind size ih =>
    subst hsize
    obtain ⟨content, hcontent, hcovers⟩ := h node node.mem_nodes_self
    have hkinds := hcovers.of_within (within_of_holdsStmts hkind content hcontent)
    rw [definitionsIn_of_isDefinition (isDefinition_of_kind hkind), List.flatMap_eq_nil_iff]
    exact fun child hchild =>
      ih child.size (size_lt_of_mem hchild) (hkinds child hchild) (h.of_mem hchild) rfl

/-- What is no definition has no definitions. -/
theorem definitions_of_isDefinition (h : node.isDefinition = false) : node.definitions = [] := by
  have hclass : node.isClass = false := (Bool.or_eq_false_iff.mp h).2
  rw [definitions, List.filter_cons_of_neg (by simp [h]), hclass]
  rfl

/-- A row of nodes in which some stand for themselves as definitions and the others have none. -/
theorem flatMap_definitionsIn {nodes : List SyntaxNode} {kept : SyntaxNode → Bool}
    (h : ∀ node ∈ nodes, node.definitionsIn = [node].filter kept) :
    nodes.flatMap definitionsIn = nodes.filter kept := by
  induction nodes with
  | nil => rfl
  | cons node nodes ih =>
    obtain ⟨hnode, hnodes⟩ := List.forall_mem_cons.mp h
    rw [List.flatMap_cons, hnode, ih hnodes, ← List.filter_append, List.singleton_append]

/-- The definitions in a definition are itself and those in its block. -/
theorem definitionsIn_of_block {header : List SyntaxNode} {body : SyntaxNode}
    (h : node.isDefinition = true) (hchildren : node.children = header ++ [body])
    (hheader : ∀ part ∈ header, part.definitionsIn = []) :
    node.definitionsIn = node :: body.definitionsIn := by
  rw [definitionsIn_eq, List.filter_cons_of_pos h, hchildren, List.flatMap_append,
    List.flatMap_eq_nil_iff.mpr hheader, List.flatMap_singleton]
  rfl

/-- The definitions of a class are itself and the functions in its block. -/
theorem definitions_of_block {header : List SyntaxNode} {body : SyntaxNode}
    (h : node.isClass = true) (hchildren : node.children = header ++ [body])
    (hheader : ∀ part ∈ header, part.kind ≠ .body) (isBody : body.kind = .body) :
    node.definitions = node :: body.children.filter isFun := by
  have hblocks : (node.children.filter fun part => part.kind = .body) = [body] := by
    rw [hchildren, List.filter_append, List.filter_cons_of_pos (by simp [isBody]), List.filter_nil,
      List.filter_eq_nil_iff.mpr fun part hpart => by simp [hheader part hpart], List.nil_append]
  rw [definitions, List.filter_cons_of_pos (by simp [isDefinition, h]), if_pos h, hblocks,
    List.flatMap_singleton]
  rfl

end SyntaxNode
end Offside
