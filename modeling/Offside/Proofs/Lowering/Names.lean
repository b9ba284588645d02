import Offside.Proofs.Lowering.Rows
import Offside.Proofs.Syntax.Contents
import Mathlib.Data.List.Chain

/-!
# Names stand at leaves

A walk takes the text of some nodes for a name without a look at their kinds.  The contents of the
phrases around them say that these nodes are leaves, and that a phrase that is entered has children.

Main definitions:

- `Content.asksForNode`: a content asks for some node.

Main results:

- Theorem `HasContent.children_ne_nil`: a node that is no leaf has children, unless it is a script.
- Theorems `HasContent.name_leaf`, `HasContent.item_leaf`, `HasContent.field_leaf` and
  `HasContent.parameter_leaf`: the names of definitions, of comprehension items, of fields and of
  parameters are leaves.
-/

namespace Offside

variable {source : Source} {nodes : List SyntaxNode} {content : Content}

/-! ## Rows -/

namespace Content

/-- Whether a content asks for some node. -/
def asksForNode : Content → Bool
  | .nothing | .many _ => false
  | .leaf .. | .one _ | .branch .. => true
  | .both first second => first.asksForNode || second.asksForNode
  | .either first second => first.asksForNode && second.asksForNode

theorem Covers.ne_nil (h : content.Covers source nodes) (hasks : content.asksForNode = true) :
    nodes ≠ [] := by
  induction content generalizing nodes with
  | nothing | many => nomatch hasks
  | leaf accepts kind =>
    obtain ⟨word, span, -, -, rfl⟩ := h
    exact nofun
  | one accepts =>
    obtain ⟨node, -, rfl⟩ := h
    exact nofun
  | branch kind content =>
    obtain ⟨node, -, -, rfl⟩ := h
    exact nofun
  | both first second ihFirst ihSecond =>
    obtain ⟨before, behind, hfirst, hsecond, rfl⟩ := h
    rw [asksForNode, Bool.or_eq_true] at hasks
    intro hnil
    rw [List.append_eq_nil_iff] at hnil
    rcases hasks with hasks | hasks
    · exact ihFirst hfirst hasks hnil.1
    · exact ihSecond hsecond hasks hnil.2
  | either first second ihFirst ihSecond =>
    rw [asksForNode, Bool.and_eq_true] at hasks
    rcases h with hfirst | hsecond
    · exact ihFirst hfirst hasks.1
    · exact ihSecond hsecond hasks.2

/-- A row that starts with a word. -/
theorem Covers.leaf_cons {accepts : TokenKind → Bool} {kind : SyntaxKind}
    (h : (both (leaf accepts kind) content).Covers source nodes) :
    ∃ word span behind, accepts word = true ∧ word.StandsAt source span ∧
      content.Covers source behind ∧ nodes = .leaf kind span :: behind := by
  obtain ⟨_, behind, ⟨word, span, haccepts, hstands, rfl⟩, hbehind, rfl⟩ := h
  exact ⟨word, span, behind, haccepts, hstands, hbehind, rfl⟩

/-- A row that starts with a word of a certain kind. -/
theorem Covers.word_cons {word : TokenKind} {kind : SyntaxKind}
    (h : (both (leaf (· = word) kind) content).Covers source nodes) :
    ∃ span behind, word.StandsAt source span ∧ content.Covers source behind ∧
      nodes = .leaf kind span :: behind := by
  obtain ⟨other, span, behind, hword, hstands, hbehind, rfl⟩ := h.leaf_cons
  obtain rfl := of_decide_eq_true hword
  exact ⟨span, behind, hstands, hbehind, rfl⟩

/-- A row that starts with a phrase. -/
theorem Covers.one_cons {accepts : SyntaxKind → Bool}
    (h : (both (one accepts) content).Covers source nodes) :
    ∃ node behind, accepts node.kind = true ∧ content.Covers source behind ∧
      nodes = node :: behind := by
  obtain ⟨_, behind, ⟨node, haccepts, rfl⟩, hbehind, rfl⟩ := h
  exact ⟨node, behind, haccepts, hbehind, rfl⟩

end Content

/-! ## Words -/

namespace Lowering

variable {l : Lowering} {word : TokenKind} {span : Span} {text : String}

/-- Where a word stands, the source has the text of its kind. -/
theorem textOf_standsAt (h : word.StandsAt l.source span) (hlexeme : word.lexeme? = some text) :
    l.textOf span = text := by
  rw [textOf, h text hlexeme, Option.getD_some, String.ofList_toList]

/-- The leaf of a keyword or mark reads as the text of its kind. -/
theorem reads_leaf (h : word.StandsAt l.source span) (hlexeme : word.lexeme? = some text)
    {kind : SyntaxKind} (hfixed : kind.isFixedText = true) (other : String) :
    l.reads (.leaf kind span) other = decide (text = other) := by
  simp [reads, SyntaxNode.leaf, hfixed, textOf_standsAt h hlexeme]

end Lowering

/-! ## Phrases -/

namespace SyntaxNode.HasContent

variable {node : SyntaxNode}

/-- A node whose kind has one content is as this content says. -/
theorem covers_of_table (h : node.HasContent source)
    (htable : Content.table node.kind = [content]) : content.Covers source node.children := by
  obtain ⟨other, hother, hcovers⟩ := h
  rw [htable, List.mem_singleton] at hother
  exact hother ▸ hcovers

/-- A leaf has no children. -/
theorem children_eq_nil (h : node.HasContent source) (hleaf : node.kind.isLeaf = true) :
    node.children = [] := by
  have htable : Content.table node.kind = [.nothing] := by
    generalize node.kind = kind at hleaf ⊢
    cases kind <;> first | rfl | nomatch hleaf
  exact h.covers_of_table htable

/-- A node that is no leaf has children, unless it is a script. -/
theorem children_ne_nil (h : node.HasContent source) (hleaf : node.kind.isLeaf = false)
    (hscript : node.kind ≠ .script) : node.children ≠ [] := by
  have htable : ∀ content ∈ Content.table node.kind, content.asksForNode = true := by
    generalize node.kind = kind at hleaf hscript ⊢
    cases kind <;> first | decide +kernel | exact absurd rfl hscript | nomatch hleaf
  obtain ⟨content, hcontent, hcovers⟩ := h
  exact hcovers.ne_nil (htable content hcontent)

/-- A node whose kind has parts has children. -/
theorem children_ne (h : node.HasContent source) (hparts : node.kind.hasParts = true) :
    node.children ≠ [] := by
  have hkind : node.kind.isLeaf = false ∧ node.kind ≠ .script := by
    generalize node.kind = kind at hparts ⊢
    cases kind <;> first | exact ⟨rfl, by decide⟩ | nomatch hparts
  exact h.children_ne_nil hkind.1 hkind.2

/-- A definition has its name behind its first word. -/
theorem name_leaf (h : node.HasContent source)
    (hkind : node.kind = .functionDefinition ∨ node.kind = .classDefinition) :
    ∃ name, node.children[1]? = some name ∧ name.kind.isLeaf = true := by
  have htable : ∃ word content,
      Content.table node.kind = [.both (Content.word word) (.both Content.name content)] := by
    rcases hkind with hkind | hkind <;> exact hkind ▸ ⟨_, _, rfl⟩
  obtain ⟨word, content, htable⟩ := htable
  obtain ⟨-, _, row, -, -, hrow, hchildren⟩ := (h.covers_of_table htable).leaf_cons
  obtain ⟨-, _, _, -, -, -, rfl⟩ := hrow.leaf_cons
  rw [hchildren]
  exact ⟨_, rfl, rfl⟩

/-- The definition of a function has its parameters in the third place. -/
theorem parameters_child (h : node.HasContent source) (hkind : node.kind = .functionDefinition) :
    ∃ list, node.children[2]? = some list ∧ list.kind = .paramList := by
  have htable : ∃ word content, Content.table node.kind = [.both (Content.word word)
      (.both Content.name (.both (.branch .paramList Content.parameters) content))] :=
    hkind ▸ ⟨_, _, rfl⟩
  obtain ⟨word, content, htable⟩ := htable
  obtain ⟨-, _, row₁, -, -, hrow₁, hchildren⟩ := (h.covers_of_table htable).leaf_cons
  obtain ⟨-, _, row₂, -, -, hrow₂, rfl⟩ := hrow₁.leaf_cons
  obtain ⟨_, _, ⟨list, hlist, -, rfl⟩, -, rfl⟩ := hrow₂
  rw [hchildren]
  exact ⟨list, rfl, hlist⟩

/-- A comprehension has the name of its item in the fourth place. -/
theorem item_leaf {opening : TokenKind} (h : node.HasContent source)
    (htable : Content.table node.kind = [Content.comprehension opening]) :
    ∃ item, node.children[3]? = some item ∧ item.kind.isLeaf = true := by
  obtain ⟨-, _, row₁, -, -, hrow₁, hchildren⟩ := (h.covers_of_table htable).leaf_cons
  obtain ⟨_, row₂, -, hrow₂, rfl⟩ := hrow₁.one_cons
  obtain ⟨-, _, row₃, -, -, hrow₃, rfl⟩ := hrow₂.leaf_cons
  obtain ⟨-, _, _, -, -, -, rfl⟩ := hrow₃.leaf_cons
  rw [hchildren]
  exact ⟨_, rfl, rfl⟩

/-- A member has a mark in the second place, and behind a dot there the name of a field. -/
theorem field_leaf {l : Lowering} (h : node.HasContent l.source)
    (hkind : node.kind = .memberExpression) :
    ∃ mark, node.children[1]? = some mark ∧ (l.reads mark "." = true →
      ∃ field, node.children[2]? = some field ∧ field.kind.isLeaf = true) := by
  obtain ⟨content, hcontent, hcovers⟩ := h
  rw [hkind] at hcontent
  rcases List.mem_cons.mp hcontent with rfl | hcontent
  · obtain ⟨_, row₁, -, hrow₁, hchildren⟩ := Content.Covers.one_cons hcovers
    obtain ⟨-, _, row₂, -, -, hrow₂, rfl⟩ := hrow₁.leaf_cons
    obtain ⟨-, _, _, -, -, -, rfl⟩ := hrow₂.leaf_cons
    rw [hchildren]
    exact ⟨_, rfl, fun _ => ⟨_, rfl, rfl⟩⟩
  -- The mark in the second place of the other content is a bracket.
  · rw [List.mem_singleton.mp hcontent] at hcovers
    obtain ⟨_, row₁, -, hrow₁, hchildren⟩ := Content.Covers.one_cons hcovers
    obtain ⟨span, _, hstands, -, rfl⟩ := hrow₁.word_cons
    have hreads : l.reads (SyntaxNode.leaf .punctuation span) "." = false :=
      Lowering.reads_leaf hstands rfl rfl "."
    rw [hchildren]
    exact ⟨_, rfl, fun hdot => absurd hdot (Bool.eq_false_iff.mp hreads)⟩

/-- A row in which types stand behind leaves only, and not in front. -/
def TypesBehindLeaves (nodes : List SyntaxNode) : Prop :=
  (nodes.IsChain fun name type => type.kind = .typeDef → name.kind.isLeaf = true) ∧
    ∀ first ∈ nodes.head?, first.kind ≠ .typeDef

theorem TypesBehindLeaves.append {more : List SyntaxNode} (h : TypesBehindLeaves nodes)
    (hmore : TypesBehindLeaves more) : TypesBehindLeaves (nodes ++ more) := by
  refine ⟨h.1.append hmore.1 fun _ _ first hfirst htype => absurd htype (hmore.2 first hfirst), ?_⟩
  intro first hfirst
  cases nodes with
  | nil => exact hmore.2 first hfirst
  | cons other nodes => exact h.2 first hfirst

theorem typesBehindLeaves_nil : TypesBehindLeaves [] := ⟨.nil, nofun⟩

theorem typesBehindLeaves_leaf (kind : SyntaxKind) (hkind : kind ≠ .typeDef) (span : Span) :
    TypesBehindLeaves [.leaf kind span] :=
  ⟨.singleton _, fun _ hfirst => Option.some.inj hfirst ▸ hkind⟩

/-- A parameter, perhaps with its type and a comma. -/
theorem typesBehindLeaves_parameter
    (h : (Content.row [Content.name, (Content.branch .typeDef (Content.typed .colon)).optional,
      (Content.mark .comma).optional]).Covers source nodes) : TypesBehindLeaves nodes := by
  obtain ⟨-, span, _, -, -, ⟨types, _, htypes, ⟨marks, _, hmarks, rfl, rfl⟩, rfl⟩, rfl⟩ :=
    h.leaf_cons
  rw [List.append_nil, ← List.cons_append]
  refine TypesBehindLeaves.append ?_ ?_
  · rcases htypes with ⟨type, -, -, rfl⟩ | rfl
    · refine ⟨.cons_cons (fun _ => rfl) (.singleton _), ?_⟩
      exact fun _ hfirst => Option.some.inj hfirst ▸ nofun
    · exact typesBehindLeaves_leaf .variableName nofun span
  · rcases hmarks with ⟨-, markSpan, -, -, rfl⟩ | rfl
    · exact typesBehindLeaves_leaf .punctuation nofun markSpan
    · exact typesBehindLeaves_nil

/-- In a row of parameters, types stand behind leaves only. -/
theorem typesBehindLeaves_parameters (h : Content.parameters.Covers source nodes) :
    TypesBehindLeaves nodes := by
  obtain ⟨-, opening, _, -, -, ⟨_, _, ⟨rows, hrows, rfl⟩, hclosing, rfl⟩, rfl⟩ :=
    Content.Covers.leaf_cons h
  obtain ⟨-, closing, _, -, -, rfl, rfl⟩ := Content.Covers.leaf_cons hclosing
  have hflatten : TypesBehindLeaves rows.flatten := by
    clear h
    induction rows with
    | nil => exact typesBehindLeaves_nil
    | cons row rows ih =>
      rw [List.flatten_cons]
      exact (typesBehindLeaves_parameter (hrows row List.mem_cons_self)).append
        (ih fun other hother => hrows other (List.mem_cons_of_mem _ hother))
  have hclosed := hflatten.append (typesBehindLeaves_leaf .punctuation nofun closing)
  exact (typesBehindLeaves_leaf .punctuation nofun opening).append hclosed

/-- A type among parameters stands behind the name of a parameter. -/
theorem parameter_leaf (h : node.HasContent source) (hkind : node.kind = .paramList)
    {index : Nat} {name type : SyntaxNode} (hname : node.children[index]? = some name)
    (htype : node.children[index + 1]? = some type) (htyped : type.kind = .typeDef) :
    name.kind.isLeaf = true := by
  have htable : Content.table node.kind = [Content.parameters] := hkind ▸ rfl
  have hchain := (typesBehindLeaves_parameters (h.covers_of_table htable)).1
  obtain ⟨hlt, rfl⟩ := List.getElem?_eq_some_iff.mp htype
  obtain ⟨-, rfl⟩ := List.getElem?_eq_some_iff.mp hname
  exact hchain.getElem index hlt htyped

end SyntaxNode.HasContent
end Offside
