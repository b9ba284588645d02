import Offside.Lowering.Declarations
import Offside.Proofs.Layout.Lossless
import Offside.Proofs.Parsing.Spans

/-!
# Spans nest

The nodes of the tree of a source lie inside one another as their spans do.  Below the root, a node
stands for a run of words of the source, from the first to the last; the runs of its children are
cut from its own run, one behind the other.  The root covers the whole source, whatever is silent at
its ends.

Main definitions:

- `SyntaxNode.Nests`: the spans of the children of a node lie within its own, in order and apart.
- `SyntaxNode.SpansWords`: a node spans a run of words.

Main results:

- Theorem `SyntaxNode.nests_of_spansLeaves`: a node nests if it and its children span their leaves.
- Theorem `parse_nests`: all nodes of the tree of a source nest, and those below the root span
  words.
-/

namespace Offside

variable {source : Source} {tokens : List Token} {tree : SyntaxNode}

namespace SyntaxNode

variable {node child : SyntaxNode}

/-- The spans of the children of a node lie within its own, in order and without overlap. -/
structure Nests (node : SyntaxNode) : Prop where
  within : ∀ child ∈ node.children,
    node.span.start ≤ child.span.start ∧ child.span.stop ≤ node.span.stop
  apart : node.children.Pairwise fun earlier later => earlier.span.stop ≤ later.span.start

/-- The leaves of a node are the words of a run, given by its first word and the others; the node
starts where the first one does and ends, further on, where the last one does. -/
structure SpansWords (node : SyntaxNode) (first : Token) (more : List Token) : Prop where
  leaves : node.leaves.map span = (first :: more).map Token.span
  span : node.span = ⟨first.span.start, (more.getLastD first).span.stop⟩
  nonempty : node.span.start < node.span.stop

/-! ## Leaves in order -/

/-- A node that spans its leaves, of which each stands behind the one before it, spans all of
them. -/
theorem SpansLeaves.le (h : node.SpansLeaves)
    (hordered : node.leaves.Pairwise fun earlier later => earlier.span.stop ≤ later.span.start)
    (hforwards : ∀ leaf ∈ node.leaves, leaf.span.start ≤ leaf.span.stop) :
    ∀ leaf ∈ node.leaves,
      node.span.start ≤ leaf.span.start ∧ leaf.span.stop ≤ node.span.stop := by
  obtain ⟨first, last, hfirst, hlast, hspan⟩ := h
  intro leaf hleaf
  rw [hspan]
  constructor
  · obtain ⟨more, hmore⟩ := List.head?_eq_some_iff.mp hfirst
    rw [hmore] at hordered hleaf hforwards
    rcases List.mem_cons.mp hleaf with rfl | hmem
    · exact Nat.le_refl _
    · exact Nat.le_trans (hforwards first List.mem_cons_self)
        (List.rel_of_pairwise_cons hordered hmem)
  · obtain ⟨before, hbefore⟩ := List.getLast?_eq_some_iff.mp hlast
    rw [hbefore] at hordered hleaf hforwards
    rcases List.mem_append.mp hleaf with hmem | hmem
    · exact Nat.le_trans ((List.pairwise_append.mp hordered).2.2 leaf hmem last
        List.mem_cons_self) (hforwards last (List.mem_append_right _ List.mem_cons_self))
    · rw [List.mem_singleton.mp hmem]

/-- Nodes that span their leaves stand one behind the other as their leaves do. -/
theorem apart_of_spansLeaves {nodes : List SyntaxNode}
    (h : ∀ node ∈ nodes, node.SpansLeaves)
    (hordered : (nodes.flatMap leaves).Pairwise fun earlier later =>
      earlier.span.stop ≤ later.span.start) :
    nodes.Pairwise fun earlier later => earlier.span.stop ≤ later.span.start := by
  refine (List.pairwise_flatMap.mp hordered).2.imp_of_mem ?_
  intro earlier later hearlier hlater hbehind
  obtain ⟨_, last, -, hlast, hspan⟩ := h earlier hearlier
  obtain ⟨first, _, hfirst, -, hspan'⟩ := h later hlater
  rw [hspan, hspan']
  exact hbehind last (List.mem_of_getLast? hlast) first (List.mem_of_mem_head? hfirst)

/-- The children of a node stand apart, if they span their leaves. -/
theorem apart_of_ordered (hleaf : node.kind.isLeaf = false)
    (hordered : node.leaves.Pairwise fun earlier later => earlier.span.stop ≤ later.span.start)
    (h : ∀ child ∈ node.children, child.SpansLeaves) :
    node.children.Pairwise fun earlier later => earlier.span.stop ≤ later.span.start := by
  rw [leaves_eq_flatMap hleaf] at hordered
  exact apart_of_spansLeaves h hordered

/-- A child lies within a span in which all its leaves lie. -/
theorem SpansLeaves.within {start stop : Nat} (h : child.SpansLeaves)
    (hleaves : ∀ leaf ∈ child.leaves, start ≤ leaf.span.start ∧ leaf.span.stop ≤ stop) :
    start ≤ child.span.start ∧ child.span.stop ≤ stop := by
  obtain ⟨first, last, hfirst, hlast, hspan⟩ := h
  rw [hspan]
  exact ⟨(hleaves first (List.mem_of_mem_head? hfirst)).1,
    (hleaves last (List.mem_of_getLast? hlast)).2⟩

/-- A node nests, if it and its children span their leaves and each leaf stands behind the one
before it. -/
theorem nests_of_spansLeaves (hleaf : node.kind.isLeaf = false) (hspans : node.SpansLeaves)
    (hchildren : ∀ child ∈ node.children, child.SpansLeaves)
    (hordered : node.leaves.Pairwise fun earlier later => earlier.span.stop ≤ later.span.start)
    (hforwards : ∀ leaf ∈ node.leaves, leaf.span.start ≤ leaf.span.stop) : node.Nests where
  within child hchild := by
    refine (hchildren child hchild).within fun leaf hmem => ?_
    have hrun := leaves_run (mem_nodes_of_mem hchild child.mem_nodes_self)
    exact hspans.le hordered hforwards leaf (hrun.subset hmem)
  apart := apart_of_ordered hleaf hordered hchildren

end SyntaxNode

/-! ## Words of a source -/

/-- A word shows something. -/
theorem Token.Shows.ne_nil {token : Token} {text : Source} (h : token.Shows text)
    (hend : token.kind ≠ .eof) (hlayout : token.kind.isLayout = false) : text ≠ [] := by
  rintro rfl
  unfold Token.Shows at h
  split at h
  · simp at h
  · exact h.1 rfl
  · next hkind =>
    rw [hkind] at hlayout
    nomatch hlayout
  · next hkind => exact hend hkind
  · obtain ⟨quote, -, hquoted⟩ := h
    nomatch hquoted
  · exact h.1 rfl

/-- A word of a source covers something. -/
theorem start_lt_stop_of_mem_wordsOf (htokens : tokenize source = .ok tokens) {token : Token}
    (h : token ∈ wordsOf tokens) : token.span.start < token.span.stop := by
  obtain ⟨hmem, hend, hlayout⟩ := mem_of_mem_wordsOf h
  obtain ⟨read, lineEnd, count, htokens', hline, hshown⟩ := (tokenize_lossless htokens).shown
  -- what is added at the end of the source is no word
  have hread : token ∈ read := by
    rw [htokens'] at hmem
    simp only [List.mem_append, List.mem_replicate, List.mem_singleton] at hmem
    rcases hmem with ((hread | hadded) | ⟨-, rfl⟩) | rfl
    · exact hread
    · rcases hline with rfl | rfl
      · nomatch hadded
      · rw [List.mem_singleton.mp hadded] at hlayout
        nomatch hlayout
    · nomatch hlayout
    · exact absurd rfl hend
  obtain ⟨text, htext, hshows⟩ := hshown token hread
  obtain ⟨before, after, -, hspan⟩ := covers_of_slice? htext
  have hpos := Source.byteSize_pos (hshows.ne_nil hend hlayout)
  rw [hspan]
  exact Nat.lt_add_of_pos_right hpos

/-- The words of a source go on from one to the next. -/
theorem start_lt_stop_getLastD (htokens : tokenize source = .ok tokens) {first : Token}
    {more : List Token} (h : first :: more <:+: wordsOf tokens) :
    first.span.start < (more.getLastD first).span.stop := by
  have hwords (word : Token) (hword : word ∈ first :: more) :
      word.span.start < word.span.stop := start_lt_stop_of_mem_wordsOf htokens (h.subset hword)
  have hordered := (tokenize_ordered htokens).sublist h.sublist
  have hfirst := hwords first List.mem_cons_self
  rw [List.getLastD_eq_getLast?]
  cases hlast : more.getLast? with
  | none => exact hfirst
  | some last =>
    have hmem := List.mem_of_getLast? hlast
    have hbehind := List.rel_of_pairwise_cons hordered hmem
    have hword := hwords last (List.mem_cons_of_mem _ hmem)
    rw [Option.getD_some]
    omega

/-! ## Trees of sources -/

/-- A node below the root spans a run of words. -/
theorem exists_spansWords (htokens : tokenize source = .ok tokens)
    (hparse : parse tokens source = .ok tree) {statement node : SyntaxNode}
    (hstatement : statement ∈ tree.children) (hnode : node ∈ statement.nodes) :
    ∃ first more, first :: more <:+: wordsOf tokens ∧ node.SpansWords first more := by
  have hmem := SyntaxNode.mem_nodes_of_mem hstatement hnode
  have hspans := (SyntaxNode.leaves_run hmem).map SyntaxNode.span
  rw [parse_leaves hparse] at hspans
  obtain ⟨words, hwords, hleaves⟩ := List.infix_map_iff.mp hspans
  obtain ⟨firstLeaf, lastLeaf, hfirst, hlast, hspan⟩ :=
    spansLeaves_of_mem_statement htokens hparse hstatement hnode
  have hhead : (words.map Token.span).head? = some firstLeaf.span := by
    rw [← hleaves, List.head?_map, hfirst, Option.map_some]
  have hend : (words.map Token.span).getLast? = some lastLeaf.span := by
    rw [← hleaves, List.getLast?_map, hlast, Option.map_some]
  cases words with
  | nil => nomatch hhead
  | cons first more =>
    have hstart : first.span = firstLeaf.span := by simpa using hhead
    have hstop : (more.getLastD first).span = lastLeaf.span := by
      simpa [List.getLast?_cons, List.getLastD_eq_getLast?] using hend
    have hsame : node.span = ⟨first.span.start, (more.getLastD first).span.stop⟩ := by
      rw [hspan, hstart, hstop]
    refine ⟨first, more, hwords, hleaves, hsame, ?_⟩
    rw [hsame]
    exact start_lt_stop_getLastD htokens hwords

/-- All leaves of the tree of a source lie within the source, each behind the one before it. -/
theorem leaves_apart (htokens : tokenize source = .ok tokens)
    (hparse : parse tokens source = .ok tree) :
    (tree.leaves.Pairwise fun earlier later => earlier.span.stop ≤ later.span.start) ∧
      ∀ leaf ∈ tree.leaves, leaf.span.start ≤ leaf.span.stop ∧
        leaf.span.stop ≤ Source.byteSize source := by
  refine ⟨List.pairwise_map.mp (leaves_ordered htokens hparse), fun leaf hleaf => ?_⟩
  have hmem := List.mem_map_of_mem (f := SyntaxNode.span) hleaf
  rw [parse_leaves hparse] at hmem
  obtain ⟨token, htoken, hspan⟩ := List.mem_map.mp hmem
  have hwithin := (tokenize_lossless htokens).within token (mem_of_mem_wordsOf htoken).1
  rw [← hspan]
  exact ⟨hwithin.1, hwithin.2.1⟩

/-- All nodes of the tree of a source nest. -/
theorem nests_of_parse (htokens : tokenize source = .ok tokens)
    (hparse : parse tokens source = .ok tree) : ∀ node ∈ tree.nodes, node.Nests := by
  obtain ⟨hordered, hwithin⟩ := leaves_apart htokens hparse
  intro node hnode
  rcases SyntaxNode.mem_nodes.mp hnode with rfl | ⟨statement, hstatement, hmem⟩
  · obtain ⟨phrases, rest, rfl, -, -⟩ := parse_derives hparse
    have hspans (child : SyntaxNode) (hchild : child ∈ phrases.map Phrase.node) :
        child.SpansLeaves :=
      spansLeaves_of_mem_statement htokens hparse hchild child.mem_nodes_self
    refine ⟨fun child hchild => (hspans child hchild).within fun leaf hleaf => ?_,
      SyntaxNode.apart_of_ordered rfl hordered hspans⟩
    have hrun := SyntaxNode.leaves_run
      (SyntaxNode.mem_nodes_of_mem hchild child.mem_nodes_self)
    exact ⟨Nat.zero_le _, (hwithin leaf (hrun.subset hleaf)).2⟩
  · have hrun := SyntaxNode.leaves_run hnode
    have hspans (other : SyntaxNode) (hother : other ∈ node.nodes) : other.SpansLeaves :=
      spansLeaves_of_mem_statement htokens hparse hstatement
        ((SyntaxNode.nodes_run hmem).subset hother)
    cases hleaf : node.kind.isLeaf with
    | true =>
      have hchildren := SyntaxNode.HasContent.children_eq_nil
        (allHaveContent_of_parse htokens hparse node hnode) hleaf
      exact ⟨by simp [hchildren], by simp [hchildren]⟩
    | false =>
      refine SyntaxNode.nests_of_spansLeaves hleaf (hspans node node.mem_nodes_self)
        (fun child hchild => hspans child ?_) (hordered.sublist hrun.sublist)
        fun leaf hmem => (hwithin leaf (hrun.subset hmem)).1
      exact SyntaxNode.mem_nodes_of_mem hchild child.mem_nodes_self

/-- The spans of the tree of a source nest.  The root covers the whole source; every other node
spans a run of words, of which there is at least one, from the start of the first to the end of the
last; and the spans of the children of a node lie within its own, in order and without overlap.  So
a node other than the root has the location of its first word. -/
theorem parse_nests (htokens : tokenize source = .ok tokens)
    (hparse : parse tokens source = .ok tree) :
    tree.span = ⟨0, Source.byteSize source⟩ ∧ (∀ node ∈ tree.nodes, node.Nests) ∧
      ∀ child ∈ tree.children, ∀ node ∈ child.nodes, ∃ first more,
        first :: more <:+: wordsOf tokens ∧ node.SpansWords first more ∧
          ∃ location, Outcome.locate source first.span.start = .ok location ∧
            ∀ path, Runs (Lowering.ofTree source tree).location ⟨node, path⟩ location
              ⟨node, path⟩ := by
  refine ⟨?_, nests_of_parse htokens hparse, fun statement hstatement node hnode => ?_⟩
  · obtain ⟨phrases, rest, rfl, -, -⟩ := parse_derives hparse
    rfl
  · obtain ⟨first, more, hwords, hspans⟩ := exists_spansWords htokens hparse hstatement hnode
    have hfirst := (mem_of_mem_wordsOf (hwords.subset List.mem_cons_self)).1
    obtain ⟨text, hcovers⟩ := tokenize_covers htokens first hfirst
    obtain ⟨location, hlocation⟩ := hcovers.cuts.location
    refine ⟨first, more, hwords, hspans, location, hlocation, fun path => ?_⟩
    have hrun : (Lowering.ofTree source tree).location ⟨node, path⟩ =
        (Outcome.locate source node.span.start).bind fun a => .ok (a, ⟨node, path⟩) := rfl
    unfold Runs
    rw [hrun, hspans.span, hlocation]
    rfl

/-- A conditional statement between comments, with a call in its condition and a block: the silence
at both ends belongs to the root alone. -/
theorem parse_nests_commentedConditional :
    ∃ tokens tree, tokenize "# a\nif f(x, [y]):  # b\n  z = -1\n\n# c".toList = .ok tokens ∧
      parse tokens "# a\nif f(x, [y]):  # b\n  z = -1\n\n# c".toList = .ok tree ∧
      tree.span = ⟨0, Source.byteSize "# a\nif f(x, [y]):  # b\n  z = -1\n\n# c".toList⟩ ∧
      (∀ node ∈ tree.nodes, node.Nests) ∧
      ∀ child ∈ tree.children, ∀ node ∈ child.nodes, ∃ first more,
        first :: more <:+: wordsOf tokens ∧ node.SpansWords first more ∧
          ∃ location, Outcome.locate "# a\nif f(x, [y]):  # b\n  z = -1\n\n# c".toList
              first.span.start = .ok location ∧
            ∀ path, Runs (Lowering.ofTree "# a\nif f(x, [y]):  # b\n  z = -1\n\n# c".toList
              tree).location ⟨node, path⟩ location ⟨node, path⟩ := by
  have hparses : ((tokenize "# a\nif f(x, [y]):  # b\n  z = -1\n\n# c".toList).bind fun tokens =>
      parse tokens "# a\nif f(x, [y]):  # b\n  z = -1\n\n# c".toList).isOk = true := by
    decide +kernel
  cases htokens : tokenize "# a\nif f(x, [y]):  # b\n  z = -1\n\n# c".toList with
  | error failure =>
    rw [htokens] at hparses
    nomatch hparses
  | ok tokens =>
    rw [htokens] at hparses
    cases hparse : parse tokens "# a\nif f(x, [y]):  # b\n  z = -1\n\n# c".toList with
    | error failure =>
      rw [Except.bind, hparse] at hparses
      nomatch hparses
    | ok tree => exact ⟨tokens, tree, rfl, hparse, parse_nests htokens hparse⟩

end Offside
