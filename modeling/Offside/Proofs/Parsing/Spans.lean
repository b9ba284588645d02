import Offside.Proofs.Layout.Positions
import Offside.Proofs.Lowering.Names
import Offside.Proofs.Parsing.AlikeTokens
import Offside.Proofs.Parsing.Contents

/-!
# Spans of nodes

The words of a source stand one behind the other, and the leaves of its tree are these words.  So
the span of a node, from the start of its first child to the end of its last, goes from the start
of a first word to the end of a last one, and covers a text of the source.

Main definitions:

- `SyntaxNode.SpansChildren`: a node that is no leaf spans its children.
- `SyntaxNode.SpansLeaves`: a tree spans its leaves.

Main results:

- Theorem `SyntaxNode.spansLeaves`: a tree spans its leaves from the first to the last.
- Theorem `parse_covers`: every node of the tree of a source covers a text of it.
- Theorem `refused_of_parse`: tokens of a source that have no tree are refused.
- Theorem `current_advanced`: the current token is the one at the place of the parser.
-/

namespace Offside

open Phrase

variable {source : Source} {tokens : List Token} {tree : SyntaxNode}

/-! ## Nodes -/

/-- A node that is no leaf spans its children. -/
def SyntaxNode.SpansChildren (node : SyntaxNode) : Prop :=
  node.kind.isLeaf = false → node.span = SyntaxNode.spanOf node.children

/-- All nodes of a tree that are no leaves span their children, if the root and the trees below it
do. -/
theorem spansChildren_branch {kind : SyntaxKind} {children : List SyntaxNode}
    (h : ∀ child ∈ children, ∀ node ∈ child.nodes, node.SpansChildren) :
    ∀ node ∈ (SyntaxNode.branch kind children).nodes, node.SpansChildren := by
  intro node hnode
  rcases SyntaxNode.mem_nodes.mp hnode with rfl | ⟨child, hchild, hmem⟩
  · exact fun _ => rfl
  · exact h child hchild node hmem

/-- What a rule derives spans its children. -/
theorem Derives.spansChildren {rule : Rule} {rest : List Token} {phrases : List Phrase}
    (h : Derives rule tokens phrases rest) :
    ∀ phrase ∈ phrases, ∀ node ∈ phrase.node.nodes, node.SpansChildren := by
  induction h with
  | nothing | layout | manyNil => exact nofun
  | leaf _ _ isLeaf =>
    refine List.forall_mem_singleton.mpr fun node hnode hleaf => ?_
    rw [List.mem_singleton.mp hnode] at hleaf
    exact absurd (hleaf.symm.trans isLeaf) nofun
  | both _ _ ihFirst ihSecond | manyCons _ _ ihFirst ihSecond =>
    exact List.forall_mem_append.mpr ⟨ihFirst, ihSecond⟩
  | eitherLeft _ ih | eitherRight _ ih | form _ ih | start _ _ ih | expression _ _ ih => exact ih
  | node _ _ ih =>
    exact List.forall_mem_singleton.mpr (spansChildren_branch (List.forall_mem_map.mpr ih))
  | extend _ _ _ _ ihLeft ihSuffix =>
    refine List.forall_mem_singleton.mpr (spansChildren_branch ?_)
    refine List.forall_mem_map.mpr (List.forall_mem_cons.mpr ⟨?_, ihSuffix⟩)
    exact ihLeft _ List.mem_cons_self

/-! ## Scripts -/

namespace Content

/-- Whether a content may have a node of a kind in its row. -/
def mayHold (kind : SyntaxKind) : Content → Bool
  | .nothing => false
  | .leaf _ other => other = kind
  | .one accepts => accepts kind
  | .branch other _ => other = kind
  | .both first second | .either first second => first.mayHold kind || second.mayHold kind
  | .many content => content.mayHold kind

theorem Covers.mayHold {content : Content} {nodes : List SyntaxNode} {node : SyntaxNode}
    (h : content.Covers source nodes) (hnode : node ∈ nodes) :
    content.mayHold node.kind = true := by
  induction content generalizing nodes with
  | nothing =>
    rw [show nodes = [] from h] at hnode
    nomatch hnode
  | leaf accepts kind =>
    obtain ⟨word, span, -, -, rfl⟩ := h
    rw [List.mem_singleton.mp hnode]
    exact decide_eq_true rfl
  | one accepts =>
    obtain ⟨other, haccepts, rfl⟩ := h
    rw [List.mem_singleton.mp hnode]
    exact haccepts
  | branch kind content =>
    obtain ⟨other, hkind, -, rfl⟩ := h
    rw [List.mem_singleton.mp hnode]
    exact decide_eq_true hkind.symm
  | both first second ihFirst ihSecond =>
    obtain ⟨before, behind, hfirst, hsecond, rfl⟩ := h
    rw [Content.mayHold, Bool.or_eq_true]
    rcases List.mem_append.mp hnode with hmem | hmem
    · exact .inl (ihFirst hfirst hmem)
    · exact .inr (ihSecond hsecond hmem)
  | either first second ihFirst ihSecond =>
    rw [Content.mayHold, Bool.or_eq_true]
    exact h.imp (ihFirst · hnode) (ihSecond · hnode)
  | many content ih =>
    obtain ⟨rows, hrows, rfl⟩ := h
    obtain ⟨row, hrow, hmem⟩ := List.mem_flatten.mp hnode
    exact ih (hrows row hrow) hmem

end Content

namespace SyntaxNode

/-- No node is above a script. -/
theorem HasContent.ne_script {node child : SyntaxNode} (h : node.HasContent source)
    (hchild : child ∈ node.children) : child.kind ≠ .script := by
  have htable : ∀ kind : SyntaxKind, ∀ content ∈ Content.table kind,
      content.mayHold .script = false := by
    intro kind
    cases kind <;> decide +kernel
  obtain ⟨content, hcontent, hcovers⟩ := h
  intro hkind
  have hholds := hcovers.mayHold hchild
  rw [hkind, htable _ content hcontent] at hholds
  nomatch hholds

/-- Below a node of a tree whose nodes are as the table says, there is no script. -/
theorem AllHaveContent.ne_script {tree child node : SyntaxNode} (h : tree.AllHaveContent source)
    (hchild : child ∈ tree.children) (hnode : node ∈ child.nodes) : node.kind ≠ .script := by
  induction hsize : tree.size using Nat.strongRecOn generalizing tree child with
  | ind size ih =>
    subst hsize
    rcases mem_nodes.mp hnode with rfl | ⟨other, hother, hmem⟩
    · exact HasContent.ne_script (h tree tree.mem_nodes_self) hchild
    · refine ih _ (size_lt_of_mem hchild) (fun below hbelow => ?_) hother hmem rfl
      exact h below (mem_nodes_of_mem hchild hbelow)

/-! ## Ends of trees -/

/-- A tree spans its leaves, of which there are some: it starts where the first one does, and ends
where the last one does. -/
def SpansLeaves (tree : SyntaxNode) : Prop :=
  ∃ first last, tree.leaves.head? = some first ∧ tree.leaves.getLast? = some last ∧
    tree.span = ⟨first.span.start, last.span.stop⟩

theorem spansLeaves_leaf (hleaf : tree.kind.isLeaf = true) (hchildren : tree.children = []) :
    tree.SpansLeaves := by
  have hleaves : tree.leaves = [tree] := by
    rcases tree with ⟨kind, span, children⟩
    subst hchildren
    exact leaves_leaf hleaf span
  exact ⟨tree, tree, by rw [hleaves]; rfl, by rw [hleaves]; rfl, rfl⟩

/-- A node that spans its children spans its leaves, if its children span theirs. -/
theorem spansLeaves_branch (hleaf : tree.kind.isLeaf = false) (hspans : tree.SpansChildren)
    (hne : tree.children ≠ []) (h : ∀ child ∈ tree.children, child.SpansLeaves) :
    tree.SpansLeaves := by
  have hleaves := leaves_eq_flatMap hleaf
  have hspan := hspans hleaf
  generalize tree.children = children at hne h hleaves hspan
  obtain ⟨front, lastChild, hfront⟩ := (List.eq_nil_or_concat' children).resolve_left hne
  obtain ⟨firstChild, back, hback⟩ := List.exists_cons_of_ne_nil hne
  obtain ⟨first, _, hfirst, -, hfirstSpan⟩ := h firstChild (by simp [hback])
  obtain ⟨_, last, -, hlast, hlastSpan⟩ := h lastChild (by simp [hfront])
  refine ⟨first, last, ?_, ?_, ?_⟩
  · rw [hleaves, hback, List.flatMap_cons, List.head?_append, hfirst, Option.some_or]
  · rw [hleaves, hfront, List.flatMap_append, List.flatMap_singleton, List.getLast?_append, hlast,
      Option.some_or]
  · have hhead : children.head? = some firstChild := by rw [hback, List.head?_cons]
    have hend : children.getLast? = some lastChild := by rw [hfront, List.getLast?_concat]
    rw [hspan, spanOf, hhead, hend]
    simp only [hfirstSpan, hlastSpan]

/-- A tree of a source whose nodes span their children spans its leaves. -/
theorem spansLeaves (h : ∀ node ∈ tree.nodes,
    node.HasContent source ∧ node.SpansChildren ∧ node.kind ≠ .script) : tree.SpansLeaves := by
  induction hsize : tree.size using Nat.strongRecOn generalizing tree with
  | ind size ih =>
    subst hsize
    obtain ⟨hcontent, hspans, hscript⟩ := h tree tree.mem_nodes_self
    cases hleaf : tree.kind.isLeaf with
    | true =>
      exact spansLeaves_leaf hleaf (HasContent.children_eq_nil hcontent hleaf)
    | false =>
      have hne := HasContent.children_ne_nil hcontent hleaf hscript
      refine spansLeaves_branch hleaf hspans hne fun child hchild => ?_
      refine ih _ (size_lt_of_mem hchild) (fun node hnode => ?_) rfl
      exact h node (mem_nodes_of_mem hchild hnode)

end SyntaxNode

/-! ## Trees of sources -/

/-- From the first to the last of some spans, one behind the other, is forwards. -/
theorem start_le_stop {spans : List Span} {first last : Span}
    (hordered : spans.Pairwise fun earlier later => earlier.stop ≤ later.start)
    (hforwards : ∀ span ∈ spans, span.start ≤ span.stop) (hfirst : spans.head? = some first)
    (hlast : spans.getLast? = some last) : first.start ≤ last.stop := by
  obtain ⟨more, rfl⟩ := List.head?_eq_some_iff.mp hfirst
  have hbound := hforwards first List.mem_cons_self
  rcases List.mem_cons.mp (List.mem_of_getLast? hlast) with rfl | hmem
  · exact hbound
  · have hbehind := (List.pairwise_cons.mp hordered).1 last hmem
    have hbound' := hforwards last (List.mem_cons_of_mem _ hmem)
    omega

theorem Covers.start_le_stop {text : Source} {span : Span} (h : Covers source span text) :
    span.start ≤ span.stop := by
  rcases h with ⟨before, after, rfl, rfl⟩
  exact Nat.le_add_right _ _

/-- A tree covers a text if its leaves do, one behind the other. -/
theorem SyntaxNode.SpansLeaves.covers (h : tree.SpansLeaves)
    (hordered : (tree.leaves.map SyntaxNode.span).Pairwise fun earlier later =>
      earlier.stop ≤ later.start)
    (hcovers : ∀ span ∈ tree.leaves.map SyntaxNode.span, ∃ text, Covers source span text) :
    ∃ text, Covers source tree.span text := by
  obtain ⟨first, last, hfirst, hlast, hspan⟩ := h
  obtain ⟨_, hstart⟩ := hcovers first.span (List.mem_map_of_mem (List.mem_of_mem_head? hfirst))
  obtain ⟨_, hstop⟩ := hcovers last.span (List.mem_map_of_mem (List.mem_of_getLast? hlast))
  have hforwards : first.span.start ≤ last.span.stop := by
    refine start_le_stop hordered ?_ ?_ ?_
    · exact fun span hmem => (hcovers span hmem).elim fun _ h => h.start_le_stop
    · rw [List.head?_map, hfirst, Option.map_some]
    · rw [List.getLast?_map, hlast, Option.map_some]
  rw [hspan]
  exact hstart.cuts.covers_between hstop.cuts_stop hforwards

/-- Every node below a statement of a source spans its leaves. -/
theorem spansLeaves_of_mem_statement (htokens : tokenize source = .ok tokens)
    (hparse : parse tokens source = .ok tree) {statement node : SyntaxNode}
    (hstatement : statement ∈ tree.children) (hnode : node ∈ statement.nodes) :
    node.SpansLeaves := by
  have hcontent := allHaveContent_of_parse htokens hparse
  obtain ⟨-, phrases, start, rest, hchildren, -, hderives⟩ := parse_root hparse
  obtain ⟨phrase, hphrase, rfl⟩ := List.mem_map.mp (hchildren ▸ hstatement)
  apply SyntaxNode.spansLeaves
  intro other hother
  have hmem := (SyntaxNode.nodes_run hnode).subset hother
  exact ⟨hcontent other (SyntaxNode.mem_nodes_of_mem hstatement hmem),
    hderives.spansChildren phrase hphrase other hmem, hcontent.ne_script hstatement hmem⟩

/-- The leaves of the tree of a source stand one behind the other. -/
theorem leaves_ordered (htokens : tokenize source = .ok tokens)
    (hparse : parse tokens source = .ok tree) :
    (tree.leaves.map SyntaxNode.span).Pairwise fun earlier later =>
      earlier.stop ≤ later.start := by
  rw [parse_leaves hparse]
  exact List.pairwise_map.mpr (tokenize_ordered htokens)

/-- Every node below a statement of a source covers a text of it. -/
theorem covers_of_mem_statement (htokens : tokenize source = .ok tokens)
    (hparse : parse tokens source = .ok tree) {statement node : SyntaxNode}
    (hstatement : statement ∈ tree.children) (hnode : node ∈ statement.nodes) :
    ∃ text, Covers source node.span text := by
  have hleaves : node.leaves <:+: tree.leaves :=
    SyntaxNode.leaves_run (SyntaxNode.mem_nodes_of_mem hstatement hnode)
  have hspans := hleaves.sublist.map SyntaxNode.span
  refine (spansLeaves_of_mem_statement htokens hparse hstatement hnode).covers
    ((leaves_ordered htokens hparse).sublist hspans) fun span hmem => ?_
  rw [parse_leaves hparse] at hspans
  obtain ⟨token, htoken, rfl⟩ := List.mem_map.mp (hspans.subset hmem)
  exact tokenize_covers htokens token (mem_of_mem_wordsOf htoken).1

/-- Every node of the tree of a source covers a text of it. -/
theorem parse_covers (htokens : tokenize source = .ok tokens)
    (hparse : parse tokens source = .ok tree) :
    ∀ node ∈ tree.nodes, ∃ text, Covers source node.span text := by
  intro node hnode
  rcases SyntaxNode.mem_nodes.mp hnode with rfl | ⟨statement, hstatement, hmem⟩
  · obtain ⟨phrases, rest, rfl, -, -⟩ := parse_derives hparse
    exact ⟨source, [], [], by simp, by simp⟩
  · exact covers_of_mem_statement htokens hparse hstatement hmem

/-! ## Refusals -/

/-- Every token starts where the source can be cut, and what is refused is refused with a
location. -/
def located (source : Source) : Likeness where
  token token token' := token = token' ∧ Cuts source token.span.start
  node _ _ := True
  failure failure _ := ∃ diagnostic, failure = .refused diagnostic

theorem alike_located (source : Source) :
    Parser.Alike (located source) ⟨source, .standard⟩ ⟨source, .standard⟩ where
  grammar := rfl
  grammar' := rfl
  kind h := congrArg Token.kind h.1
  refuse := by
    rintro token _ reason ⟨rfl, hcuts⟩ α β rel
    obtain ⟨location, hleft⟩ :=
      Scanner.refuseAt_of_cuts (α := α) hcuts (Cause.unexpected reason token)
    obtain ⟨location', hright⟩ :=
      Scanner.refuseAt_of_cuts (α := β) hcuts (Cause.unexpected reason token)
    rw [hleft, hright]
    exact .error ⟨_, rfl⟩
  leaf _ _ _ := trivial
  branch _ _ := trivial

/-- A source with tokens but without a tree is refused. -/
theorem refused_of_parse (htokens : tokenize source = .ok tokens) {failure : Failure}
    (h : parse tokens source = .error failure) : ∃ diagnostic, failure = .refused diagnostic := by
  have hall : List.Forall₂ (located source).token tokens tokens := by
    refine List.forall₂_same.mpr fun token htoken => ⟨rfl, ?_⟩
    exact (tokenize_covers htokens token htoken).elim fun _ hcovers => hcovers.cuts
  rw [← complete_of_tokenize htokens (Source.byteSize source)] at hall
  have hparse := parse_alike (alike_located source) hall fun _ _ _ => trivial
  rw [h] at hparse
  cases hparse with
  | error hrefused => exact hrefused

/-! ## Places in the token list -/

/-- After some advances, the current token is the one with this number in the completed token
list, and there is one; or the last one, which is never left. -/
theorem current_advanced (tokens : List Token) (stop count : Nat) :
    1 ≤ (TokenStream.complete tokens stop).length ∧
      (TokenStream.complete tokens stop)[min count
          ((TokenStream.complete tokens stop).length - 1)]? =
        some (TokenStream.next^[count] (TokenStream.ofTokens tokens stop)).current := by
  obtain ⟨hlist, -⟩ := toList_ofTokens tokens stop
  rw [← hlist]
  generalize TokenStream.ofTokens tokens stop = stream
  refine ⟨Nat.succ_pos _, ?_⟩
  induction count generalizing stream with
  | zero => simp [TokenStream.toList]
  | succ count ih =>
    rw [Function.iterate_succ_apply, ← ih]
    rcases stream with ⟨current, _ | ⟨token, rest⟩⟩
    · simp [TokenStream.toList, TokenStream.next]
    · simp [TokenStream.toList, TokenStream.next, Nat.succ_min_succ]

end Offside
