import Offside.Proofs.Writing.Lowered

/-!
# Lowered lists and calls

What the trees of lists, comprehensions and calls stand for.  Their parts stand in a row with
commas between them, and the lowering walks along this row up to the closing bracket.

Main definitions:

- `Separated`: nodes that stand for something, with commas between them.
- `Given`: a walk gives a value at a node.

Main results:

- Theorems `StandsFor.listLiteral`, `StandsFor.call` and so on: what a tree stands for, given
  what its parts stand for.
-/

namespace Offside

/-- More nodes that stand for something, each behind a comma. -/
inductive SeparatedMore {α : Type} (source : Source) (stands : SyntaxNode → α → Prop) :
    List SyntaxNode → List α → Prop where
  | nil : SeparatedMore source stands [] []
  | cons {span : Span} {node : SyntaxNode} {nodes : List SyntaxNode} {value : α} {values : List α}
      (comma : Covers source span ",".toList) (onNext : stands node value)
      (onMore : SeparatedMore source stands nodes values) :
      SeparatedMore source stands (.leaf .punctuation span :: node :: nodes) (value :: values)

/-- Nodes that stand for something, with commas between them. -/
inductive Separated {α : Type} (source : Source) (stands : SyntaxNode → α → Prop) :
    List SyntaxNode → List α → Prop where
  | nil : Separated source stands [] []
  | cons {node : SyntaxNode} {nodes : List SyntaxNode} {value : α} {values : List α}
      (onFirst : stands node value) (onMore : SeparatedMore source stands nodes values) :
      Separated source stands (node :: nodes) (value :: values)

/-- Expressions without their notes. -/
def Expr.bareAll {α : Type} (es : List (Expr α)) : List (Expr Unit) := Expr.mapAll (fun _ => ()) es

/-! ## Rows of nodes -/

/-- The first entry behind those dropped, and the others. -/
theorem getElem?_of_drop {α : Type} {entries rest : List α} {n : Nat} {entry : α}
    (h : entries.drop n = entry :: rest) :
    entries[n]? = some entry ∧ entries.drop (n + 1) = rest := by
  constructor
  · rw [← List.head?_drop, h]
    rfl
  · rw [← List.tail_drop, h]
    rfl

section Rows

variable {α : Type} {l : Lowering} {inner : Walk α} {nodes : List SyntaxNode} {values : List α}

/-- A walk gives a value at a node that is no mark, and comes back. -/
structure Given (inner : Walk α) (node : SyntaxNode) (value : α) : Prop where
  phrase : node.kind.isFixedText = false
  runs : ∀ path, Runs inner ⟨node, path⟩ value ⟨node, path⟩

namespace Runs

/-- One entry of a list, or a comma. -/
def entry (l : Lowering) (inner : Walk α) : Walk (List α) := do
  if ← l.isToken "," then return [] else return [← inner]

/-- A comma gives nothing. -/
theorem entry_comma {node : SyntaxNode} {path : List (SyntaxNode × Nat)}
    (h : Covers l.source node.span ",".toList) (hkind : node.kind.isFixedText = true) :
    Runs (entry l inner) ⟨node, path⟩ [] ⟨node, path⟩ :=
  .bind (.isToken_eq h hkind ",") (.pure _ _)

/-- What is given at a node is the only value there. -/
theorem entry_value {node : SyntaxNode} {path : List (SyntaxNode × Nat)} {value : α}
    (h : Given inner node value) : Runs (entry l inner) ⟨node, path⟩ [value] ⟨node, path⟩ :=
  .bind (.isToken_phrase h.phrase ",") (.bind (h.runs path) (.pure _ _))

variable {parent closing : SyntaxNode} {index : Nat}

/-- The walk ends at the closing bracket. -/
theorem collect_closing (word : String) (cur : SyntaxNode) (path : List (SyntaxNode × Nat))
    (limit : Nat) (hnext : parent.children[index + 1]? = some closing)
    (hclosing : Covers l.source closing.span word.toList)
    (hkind : closing.kind.isFixedText = true) :
    Runs (Walk.collect (l.isToken word) (entry l inner) (limit + 1)) ⟨cur, (parent, index) :: path⟩
      [] ⟨closing, (parent, index + 1) :: path⟩ := by
  have hstop : Runs (l.isToken word) ⟨closing, (parent, index + 1) :: path⟩ true
      ⟨closing, (parent, index + 1) :: path⟩ := by
    rw [← decide_eq_true (rfl : word = word)]
    exact .isToken_eq hclosing hkind word
  exact .bind (.nextSibling hnext) (.bind hstop (.pure _ _))

/-- The walk up to the closing bracket collects the values of more nodes. -/
theorem collect_more (h : SeparatedMore l.source (Given inner) nodes values) (word : String)
    (cur : SyntaxNode) (path : List (SyntaxNode × Nat)) (limit : Nat) (hword : "," ≠ word)
    (hclosing : Covers l.source closing.span word.toList)
    (hkind : closing.kind.isFixedText = true) (hlimit : nodes.length < limit)
    (hdrop : parent.children.drop (index + 1) = nodes ++ [closing]) :
    ∃ place, Runs (Walk.collect (l.isToken word) (entry l inner) limit)
      ⟨cur, (parent, index) :: path⟩ values ⟨closing, (parent, place) :: path⟩ := by
  induction h generalizing cur limit index with
  | nil =>
    obtain ⟨limit, rfl⟩ : ∃ n, limit = n + 1 := ⟨limit - 1, by omega⟩
    exact ⟨index + 1, collect_closing word cur path limit (getElem?_of_drop hdrop).1 hclosing hkind⟩
  | @cons span node nodes value values comma onNext onMore ih =>
    rw [List.length_cons, List.length_cons] at hlimit
    obtain ⟨limit, rfl⟩ : ∃ n, limit = n + 2 := ⟨limit - 2, by omega⟩
    rcases getElem?_of_drop hdrop with ⟨hcomma, hdrop⟩
    rcases getElem?_of_drop hdrop with ⟨hnext, hdrop⟩
    obtain ⟨place, hmore⟩ := ih node limit (by omega) hdrop
    have hgoesOn : Runs (l.isToken word)
        ⟨.leaf .punctuation span, (parent, index + 1) :: path⟩ false
        ⟨.leaf .punctuation span, (parent, index + 1) :: path⟩ := by
      rw [← decide_eq_false hword]
      exact .isToken_eq comma rfl word
    refine ⟨place, .bind (.nextSibling hcomma) (.bind hgoesOn ?_)⟩
    refine .bind (.entry_comma comma rfl) (.bind ?_ (.pure _ _))
    refine .bind (.nextSibling hnext) (.bind (.isToken_phrase onNext.phrase word) ?_)
    exact .bind (.entry_value onNext) (.bind hmore (.pure _ _))

/-- The walk up to the closing bracket collects the values of all nodes. -/
theorem listUntil (h : Separated l.source (Given inner) nodes values) (word : String)
    (cur : SyntaxNode) (path : List (SyntaxNode × Nat)) (hword : "," ≠ word)
    (hclosing : Covers l.source closing.span word.toList)
    (hkind : closing.kind.isFixedText = true) (hlimit : nodes.length < l.limit)
    (hdrop : parent.children.drop (index + 1) = nodes ++ [closing]) :
    ∃ place, Runs (l.listUntil word do return [← inner])
      ⟨cur, (parent, index) :: path⟩ values ⟨closing, (parent, place) :: path⟩ := by
  obtain ⟨limit, hlimit'⟩ : ∃ n, l.limit = n + 1 := ⟨l.limit - 1, by omega⟩
  unfold Lowering.listUntil
  rw [hlimit']
  cases h with
  | nil =>
    exact ⟨index + 1, collect_closing word cur path limit (getElem?_of_drop hdrop).1 hclosing hkind⟩
  | @cons node nodes value values onFirst onMore =>
    rcases getElem?_of_drop hdrop with ⟨hfirst, hdrop⟩
    rw [List.length_cons] at hlimit
    obtain ⟨place, hmore⟩ := collect_more onMore word node path limit hword hclosing hkind
      (by omega) hdrop
    refine ⟨place, .bind (.nextSibling hfirst) (.bind (.isToken_phrase onFirst.phrase word) ?_)⟩
    exact .bind (.entry_value onFirst) (.bind hmore (.pure _ _))

end Runs
end Rows

/-- The walk over expressions gives what nodes stand for. -/
theorem SeparatedMore.gives (l : Lowering) (fuel : Nat) {nodes : List SyntaxNode}
    {es : List (Expr Unit)} (h : SeparatedMore l.source (StandsFor l.source) nodes es)
    (hlimit : SyntaxNode.sizes nodes ≤ l.limit) (hfuel : SyntaxNode.sizes nodes ≤ fuel) :
    ∃ es', Expr.bareAll es' = es ∧
      SeparatedMore l.source (Given (l.exprWithin fuel)) nodes es' := by
  induction h with
  | nil => exact ⟨[], rfl, .nil⟩
  | cons comma onNext onMore ih =>
    simp only [SyntaxNode.sizes_cons, SyntaxNode.size_leaf] at hlimit hfuel
    obtain ⟨es', hes, hmore⟩ := ih (by omega) (by omega)
    obtain ⟨e', he, rfl⟩ := onNext.lowers l fuel rfl (by omega) (by omega)
    exact ⟨e' :: es', by rw [← hes]; rfl, .cons comma ⟨onNext.phrase, he⟩ hmore⟩

/-- A row of nodes that stand for expressions gives these expressions. -/
theorem Separated.gives (l : Lowering) (fuel : Nat) {nodes : List SyntaxNode}
    {es : List (Expr Unit)} (h : Separated l.source (StandsFor l.source) nodes es)
    (hlimit : SyntaxNode.sizes nodes ≤ l.limit) (hfuel : SyntaxNode.sizes nodes ≤ fuel) :
    ∃ es', Expr.bareAll es' = es ∧ Separated l.source (Given (l.exprWithin fuel)) nodes es' := by
  cases h with
  | nil => exact ⟨[], rfl, .nil⟩
  | cons onFirst onMore =>
    rw [SyntaxNode.sizes_cons] at hlimit hfuel
    obtain ⟨es', hes, hmore⟩ := onMore.gives l fuel (by omega) (by omega)
    obtain ⟨e', he, rfl⟩ := onFirst.lowers l fuel rfl (by omega) (by omega)
    exact ⟨e' :: es', by rw [← hes]; rfl, .cons ⟨onFirst.phrase, he⟩ hmore⟩

namespace Runs

/-- The arguments of a call are the expressions between its parentheses. -/
theorem argumentsWith (l : Lowering) (fuel : Nat) (span : Span) {source : Source}
    {nodes : List SyntaxNode} {es : List (Expr Unit)} {span' : Span}
    (h : Separated source (StandsFor source) nodes es) (closing : Covers source span' ")".toList)
    (hsource : l.source = source) (hlimit : SyntaxNode.sizes nodes < l.limit)
    (hfuel : SyntaxNode.sizes nodes ≤ fuel) :
    ∃ es', Expr.bareAll es' = es ∧ ∀ path,
      Runs (l.argumentsWith (l.exprWithin fuel))
        ⟨.branch .argList (.leaf .punctuation span :: (nodes ++ [.leaf .punctuation span'])), path⟩
        es'
        ⟨.branch .argList (.leaf .punctuation span :: (nodes ++ [.leaf .punctuation span'])),
          path⟩ := by
  subst hsource
  obtain ⟨es', hes, hgives⟩ := h.gives l fuel (Nat.le_of_lt hlimit) hfuel
  have hlength := SyntaxNode.length_le_sizes nodes
  refine ⟨es', hes, ?_⟩
  intro path
  have hdrop : (SyntaxNode.branch .argList (.leaf .punctuation span ::
      (nodes ++ [.leaf .punctuation span']))).children.drop (0 + 1) =
        nodes ++ [.leaf .punctuation span'] := rfl
  obtain ⟨place, hplace⟩ := Runs.listUntil hgives ")" (.leaf .punctuation span) path (by decide)
    closing rfl (by omega) hdrop
  exact .bind (.firstChild rfl) (.bind hplace (.bind .leave (.pure _ _)))

/-- The walk up to the closing bracket collects the elements. -/
theorem elements_cons (l : Lowering) (fuel : Nat) {source : Source} {node : SyntaxNode}
    {nodes : List SyntaxNode} {e : Expr Unit} {es : List (Expr Unit)}
    (onFirst : StandsFor source node e) (h : SeparatedMore source (StandsFor source) nodes es)
    (hsource : l.source = source) (hlimit : node.size + SyntaxNode.sizes nodes ≤ l.limit)
    (hfuel : node.size + SyntaxNode.sizes nodes ≤ fuel) :
    ∃ es', Expr.bareAll es' = e :: es ∧
      ∀ (cur : SyntaxNode) (limit : Nat) (path : List (SyntaxNode × Nat))
        {parent closing : SyntaxNode} {index : Nat},
        parent.children.drop (index + 1) = node :: (nodes ++ [closing]) → nodes.length < limit →
        Covers source closing.span "]".toList → closing.kind.isFixedText = true →
          ∃ place, Runs (l.elements (l.exprWithin fuel) limit) ⟨cur, (parent, index) :: path⟩
            (es', true) ⟨closing, (parent, place) :: path⟩ := by
  subst hsource
  induction h generalizing node e with
  | nil =>
    simp only [SyntaxNode.sizes_nil] at hlimit hfuel
    rcases onFirst.lowers l fuel rfl (by omega) (by omega) with ⟨e', he, rfl⟩
    refine ⟨[e'], rfl, ?_⟩
    intro cur limit path parent closing index hdrop hlength hclosing hkind
    obtain ⟨limit, rfl⟩ : ∃ n, limit = n + 1 := ⟨limit - 1, by omega⟩
    rcases getElem?_of_drop hdrop with ⟨hfirst, hdrop⟩
    rcases getElem?_of_drop hdrop with ⟨hlast, -⟩
    refine ⟨index + 1 + 1, ?_⟩
    refine .bind (.nextSibling hfirst) (.bind (.isToken_phrase onFirst.phrase "]") ?_)
    refine .bind (.isToken_phrase onFirst.phrase ",") (.bind (he _) ?_)
    exact .bind (.nextSibling hlast) (.bind (.isToken_eq hclosing hkind "]") (.pure _ _))
  | @cons span next nodes e'' es comma onNext onMore ih =>
    simp only [SyntaxNode.sizes_cons, SyntaxNode.size_leaf] at hlimit hfuel
    rcases ih (by omega) (by omega) onNext with ⟨es', hes, hrun⟩
    rcases onFirst.lowers l fuel rfl (by omega) (by omega) with ⟨e', he, rfl⟩
    refine ⟨e' :: es', by rw [← hes]; rfl, ?_⟩
    intro cur limit path parent closing index hdrop hlength hclosing hkind
    rw [List.length_cons, List.length_cons] at hlength
    obtain ⟨limit, rfl⟩ : ∃ n, limit = n + 1 := ⟨limit - 1, by omega⟩
    rcases getElem?_of_drop hdrop with ⟨hfirst, hdrop⟩
    rcases getElem?_of_drop hdrop with ⟨hcomma, hdrop⟩
    obtain ⟨place, hmore⟩ := hrun (.leaf .punctuation span) limit path hdrop
      (by omega) hclosing hkind
    refine ⟨place, ?_⟩
    refine .bind (.nextSibling hfirst) (.bind (.isToken_phrase onFirst.phrase "]") ?_)
    refine .bind (.isToken_phrase onFirst.phrase ",") (.bind (he _) ?_)
    refine .bind (.nextSibling hcomma) (.bind (.isToken_eq comma rfl "]") ?_)
    refine .bind (.isToken_eq comma rfl ",") ?_
    exact .bind hmore (.pure _ _)

end Runs

/-! ## Lists and comprehensions -/

section Forms

variable {source : Source} {span span' : Span}

/-- A list stands for the list of what its elements stand for. -/
theorem StandsFor.listLiteral {nodes : List SyntaxNode} {es : List (Expr Unit)}
    (opening : Covers source span "[".toList) (h : Separated source (StandsFor source) nodes es)
    (closing : Covers source span' "]".toList) :
    StandsFor source (.branch .arrayExpression
      (.leaf .punctuation span :: (nodes ++ [.leaf .punctuation span']))) (.listLiteral () es) := by
  refine .of_walk opening.cuts rfl ?_
  rintro l fuel a rfl hlimit hfuel ha
  rw [SyntaxNode.size_branch, SyntaxNode.sizes_cons, SyntaxNode.sizes_append] at hlimit hfuel
  simp only [SyntaxNode.size_leaf, SyntaxNode.sizes_cons, SyntaxNode.sizes_nil] at hlimit hfuel
  have helements : ∃ es', Expr.bareAll es' = es ∧ ∀ path, ∃ place,
      Runs (l.elements (l.exprWithin fuel) l.limit)
        ⟨.leaf .punctuation span, (.branch .arrayExpression
          (.leaf .punctuation span :: (nodes ++ [.leaf .punctuation span'])), 0) :: path⟩
        (es', true)
        ⟨.leaf .punctuation span', (.branch .arrayExpression
          (.leaf .punctuation span :: (nodes ++ [.leaf .punctuation span'])), place) :: path⟩ := by
    cases h with
    | nil =>
      obtain ⟨limit, hlimit'⟩ : ∃ n, l.limit = n + 1 := ⟨l.limit - 1, by omega⟩
      refine ⟨[], rfl, fun path => ⟨1, ?_⟩⟩
      rw [hlimit']
      exact .bind (.nextSibling rfl) (.bind (.isToken_eq closing rfl "]") (.pure _ _))
    | @cons node nodes e es onFirst onMore =>
      rw [SyntaxNode.sizes_cons] at hlimit hfuel
      have hlength := SyntaxNode.length_le_sizes nodes
      obtain ⟨es', hes, hrun⟩ := Runs.elements_cons l fuel onFirst onMore rfl
        (by omega) (by omega)
      refine ⟨es', hes, fun path => ?_⟩
      exact hrun _ _ path rfl (by omega) closing rfl
  rcases helements with ⟨es', hes, hrun⟩
  refine ⟨.listLiteral a es', ?_, by rw [← hes]; rfl⟩
  intro path
  rcases hrun path with ⟨place, hplace⟩
  refine .bind (ha path) (.bind .kind (.bind (ha path) ?_))
  exact .bind (.enter rfl) (.bind hplace (.bind .leave (.pure _ _)))

/-- The kind of the node of a comprehension. -/
def ComprehensionKind.syntaxKind : ComprehensionKind → SyntaxKind
  | .generator => .comprehensionExpression
  | .list => .arrayComprehensionExpression
  | .set => .setComprehensionExpression

/-- The lowering of the node of a comprehension is that of comprehensions. -/
theorem Runs.of_comprehension {l : Lowering} {fuel : Nat} {kind : ComprehensionKind}
    {children : List SyntaxNode} {a : Location} {e : Expr Location}
    {path : List (SyntaxNode × Nat)}
    (ha : Runs l.location ⟨.branch kind.syntaxKind children, path⟩ a
      ⟨.branch kind.syntaxKind children, path⟩)
    (h : Runs (l.comprehension (l.exprWithin fuel) a) ⟨.branch kind.syntaxKind children, path⟩ e
      ⟨.branch kind.syntaxKind children, path⟩) :
    Runs (l.exprWithin (fuel + 1)) ⟨.branch kind.syntaxKind children, path⟩ e
      ⟨.branch kind.syntaxKind children, path⟩ := by
  cases kind <;> exact .bind ha (.bind .kind h)

/-- The nodes of the filter of a comprehension, if it has one. -/
inductive FilterNodes (source : Source) : List SyntaxNode → Option (Expr Unit) → Prop where
  | none : FilterNodes source [] none
  | some {span : Span} {node : SyntaxNode} {e : Expr Unit} (onIf : Covers source span "if".toList)
      (onFilter : StandsFor source node e) :
      FilterNodes source [.leaf .keyword span, node] (some e)

/-- Behind the iterable there is a filter or not, and then the closing bracket. -/
theorem Runs.comprehensionEnd (l : Lowering) (fuel : Nat) {nodes : List SyntaxNode}
    {filter : Option (Expr Unit)} (h : FilterNodes source nodes filter)
    (hsource : l.source = source) (hlimit : SyntaxNode.sizes nodes ≤ l.limit)
    (hfuel : SyntaxNode.sizes nodes ≤ fuel) :
    ∃ filter' : Option (Expr Location), filter'.map Expr.bare = filter ∧
      ∀ (parent cur : SyntaxNode) (index : Nat) (path : List (SyntaxNode × Nat))
        {closing : SyntaxNode} {kind : ComprehensionKind},
        parent.children.drop (index + 1) = nodes ++ [closing] →
        Covers source closing.span kind.brackets.2.toList → closing.kind.isFixedText = true →
          ∃ place, Runs (l.comprehensionEnd (l.exprWithin fuel)) ⟨cur, (parent, index) :: path⟩
            (filter', kind.brackets.2) ⟨closing, (parent, place) :: path⟩ := by
  subst hsource
  cases h with
  | none =>
    refine ⟨none, rfl, ?_⟩
    intro parent cur index path closing kind hdrop onClosing hkind
    rcases getElem?_of_drop hdrop with ⟨hlast, -⟩
    have hif : decide (kind.brackets.2 = "if") = false := by
      cases kind <;> decide
    refine ⟨index + 1, .bind (.nextSibling hlast) (.bind (.isToken_eq onClosing hkind "if") ?_)⟩
    rw [hif]
    exact .bind (.text_eq onClosing) (.pure _ _)
  | @some span node e onIf onFilter =>
    simp only [SyntaxNode.sizes_cons, SyntaxNode.size_leaf, SyntaxNode.sizes_nil] at hlimit hfuel
    rcases onFilter.lowers l fuel rfl (by omega) (by omega) with ⟨e', he, rfl⟩
    refine ⟨some e', rfl, ?_⟩
    intro parent cur index path closing kind hdrop onClosing hkind
    rcases getElem?_of_drop hdrop with ⟨hif, hdrop⟩
    rcases getElem?_of_drop hdrop with ⟨hfilter, hdrop⟩
    rcases getElem?_of_drop hdrop with ⟨hlast, -⟩
    refine ⟨index + 1 + 1 + 1, .bind (.nextSibling hif) (.bind (.isToken_eq onIf rfl "if") ?_)⟩
    refine .bind (.step hfilter) (.bind (he _) ?_)
    exact .bind (.nextSibling hlast) (.bind (.text_eq onClosing) (.pure _ _))

/-- A comprehension without locations has parts without locations. -/
theorem Expr.bare_comprehension {a : Location} {kind : ComprehensionKind}
    {result iterable : Expr Location} {item : String} {filter : Option (Expr Location)} :
    (Expr.comprehension a kind result item iterable filter).bare =
      .comprehension () kind result.bare item iterable.bare (filter.map Expr.bare) := by
  cases filter <;> rfl

/-- The node of a comprehension. -/
def comprehensionNode (kind : ComprehensionKind) (opening forSpan itemSpan inSpan closing : Span)
    (resultNode iterableNode : SyntaxNode) (filterNodes : List SyntaxNode) : SyntaxNode :=
  .branch kind.syntaxKind
    ([.leaf .punctuation opening, resultNode, .leaf .keyword forSpan,
      .leaf .variableName itemSpan, .leaf .keyword inSpan, iterableNode] ++ filterNodes ++
      [.leaf .punctuation closing])

/-- A comprehension, with a filter or without one. -/
theorem StandsFor.comprehension {opening forSpan itemSpan inSpan closing : Span}
    {kind : ComprehensionKind} {resultNode iterableNode : SyntaxNode}
    {filterNodes : List SyntaxNode} {result iterable : Expr Unit} {item : String}
    {filter : Option (Expr Unit)} (onOpening : Covers source opening kind.brackets.1.toList)
    (onResult : StandsFor source resultNode result)
    (onItem : Covers source itemSpan item.toList)
    (onIterable : StandsFor source iterableNode iterable)
    (onFilter : FilterNodes source filterNodes filter)
    (onClosing : Covers source closing kind.brackets.2.toList) :
    StandsFor source (comprehensionNode kind opening forSpan itemSpan inSpan closing resultNode
      iterableNode filterNodes) (.comprehension () kind result item iterable filter) := by
  refine .of_walk onOpening.cuts (by cases kind <;> rfl) ?_
  rintro l fuel a rfl hlimit hfuel ha
  rw [comprehensionNode, SyntaxNode.size_branch, SyntaxNode.sizes_append,
    SyntaxNode.sizes_append] at hlimit hfuel
  simp only [SyntaxNode.size_leaf, SyntaxNode.sizes_cons, SyntaxNode.sizes_nil] at hlimit hfuel
  rcases onResult.lowers l fuel rfl (by omega) (by omega) with ⟨result', hresult, rfl⟩
  rcases onIterable.lowers l fuel rfl (by omega) (by omega) with ⟨iterable', hiterable, rfl⟩
  rcases Runs.comprehensionEnd l fuel onFilter rfl (by omega) (by omega) with ⟨filter', rfl, hend⟩
  refine ⟨.comprehension a kind result' item iterable' filter', ?_, Expr.bare_comprehension⟩
  intro path
  refine .of_comprehension (ha path) ?_
  obtain ⟨place, hplace⟩ := hend (comprehensionNode kind opening forSpan itemSpan inSpan
    closing resultNode iterableNode filterNodes) iterableNode 5 path rfl onClosing rfl
  refine .bind (.enter rfl) (.bind (.text_eq onOpening) (.bind (.step rfl) ?_))
  refine .bind (hresult _) (.bind (.step rfl) (.bind (.step rfl) (.bind (.text_eq onItem) ?_)))
  refine .bind (.step rfl) (.bind (.step rfl) (.bind (hiterable _) ?_))
  refine .bind hplace (.bind .leave ?_)
  simp only [ComprehensionKind.ofBrackets?_brackets]
  exact .pure _ _

/-! ## Calls -/

/-- A callee that is a name has no type arguments. -/
theorem Runs.genericCallee_name {l : Lowering} {path : List (SyntaxNode × Nat)} :
    Runs l.genericCallee ⟨.leaf .variableName span, path⟩ none
      ⟨.leaf .variableName span, path⟩ :=
  .bind (.bind (.isAt _) (.pure _ _)) (.pure _ _)

/-- A callee that is a field has no type arguments. -/
theorem Runs.genericCallee_lookup {l : Lowering} {object : SyntaxNode} {propertySpan : Span}
    {path : List (SyntaxNode × Nat)} (dot : Covers l.source span ".".toList) :
    Runs l.genericCallee
      ⟨.branch .memberExpression
        [object, .leaf .punctuation span, .leaf .propertyName propertySpan], path⟩ none
      ⟨.branch .memberExpression
        [object, .leaf .punctuation span, .leaf .propertyName propertySpan], path⟩ := by
  refine .bind (.bind (.isAt _) (.firstChild rfl)) (.bind .text ?_)
  -- the walk stops at the object, or at the dot when the object is a name
  obtain ⟨cur, place, hplace⟩ : ∃ cur place, Runs
      (Walk.andAlso (Walk.andAlso (Walk.isAt .variableName) (l.stepTo "["))
        (l.areTypes l.limit false))
      ⟨object, (.branch .memberExpression
        [object, .leaf .punctuation span, .leaf .propertyName propertySpan], 0) :: path⟩ false
      ⟨cur, (.branch .memberExpression
        [object, .leaf .punctuation span, .leaf .propertyName propertySpan], place) :: path⟩ := by
    by_cases hname : object.kind = .variableName
    · have hstep : Runs (l.stepTo "[")
          ⟨object, (.branch .memberExpression
            [object, .leaf .punctuation span, .leaf .propertyName propertySpan], 0) :: path⟩ false
          ⟨.leaf .punctuation span, (.branch .memberExpression
            [object, .leaf .punctuation span, .leaf .propertyName propertySpan], 1) :: path⟩ := by
        have hother : decide ("." = "[") = false := by decide
        rw [← hother]
        exact .stepTo rfl dot rfl "["
      exact ⟨.leaf .punctuation span, 1, .bind (.bind (.isAt_true hname) hstep) (.pure _ _)⟩
    · exact ⟨object, 0, .bind (.bind (.isAt_false hname) (.pure _ _)) (.pure _ _)⟩
  exact .bind hplace (.bind .leave (.pure _ _))

/-- Only a name is a name without its location. -/
theorem Expr.eq_id_of_bare {e : Expr Location} {name : String} (h : e.bare = .id () name) :
    ∃ a, e = .id a name := by
  cases e with
  | id a other =>
    simp only [Expr.bare, Expr.map, Expr.id.injEq, true_and] at h
    exact ⟨a, by rw [h]⟩
  | comprehension a kind result item iterable filter =>
    cases filter <;> simp [Expr.bare, Expr.map] at h
  | _ => simp [Expr.bare, Expr.map] at h

/-- Only a field of an object is one without its locations. -/
theorem Expr.eq_lookup_of_bare {e : Expr Location} {object : Expr Unit} {field : String}
    (h : e.bare = .lookup () object field) : ∃ a object', e = .lookup a object' field ∧
      object'.bare = object := by
  cases e with
  | lookup a other field' =>
    simp only [Expr.bare, Expr.map, Expr.lookup.injEq, true_and] at h
    exact ⟨a, other, by rw [h.2], h.1⟩
  | comprehension a kind result item iterable filter =>
    cases filter <;> simp [Expr.bare, Expr.map] at h
  | _ => simp [Expr.bare, Expr.map] at h

variable {opening closing : Span} {nodes : List SyntaxNode} {es : List (Expr Unit)}
  {name : String}

/-- The node of the arguments of a call. -/
def argumentsNode (opening : Span) (nodes : List SyntaxNode) (closing : Span) : SyntaxNode :=
  .branch .argList (.leaf .punctuation opening :: (nodes ++ [.leaf .punctuation closing]))

/-- The nodes of an argument list are those of its arguments, both parentheses and itself. -/
theorem size_argumentsNode : (argumentsNode opening nodes closing).size =
    SyntaxNode.sizes nodes + 3 := by
  rw [argumentsNode, SyntaxNode.size_branch, SyntaxNode.sizes_cons, SyntaxNode.sizes_append]
  simp only [SyntaxNode.size_leaf, SyntaxNode.sizes_cons, SyntaxNode.sizes_nil]
  omega

/-- A call of `TypeVar` creates a type variable, whatever its arguments. -/
theorem StandsFor.typeVar {arguments : SyntaxNode}
    (onName : Covers source span "TypeVar".toList) :
    StandsFor source (.branch .callExpression [.leaf .variableName span, arguments])
      (.literal () ⟨(), .typeVar⟩) := by
  refine .of_walk onName.cuts rfl ?_
  rintro l fuel a rfl hlimit hfuel ha
  simp only [SyntaxNode.size_branch, SyntaxNode.size_leaf, SyntaxNode.sizes_cons,
    SyntaxNode.sizes_nil] at hlimit hfuel
  obtain ⟨callee, hcallee, hbare⟩ := (StandsFor.id onName).lowers l fuel rfl
    (by rw [SyntaxNode.size_leaf]; omega) (by rw [SyntaxNode.size_leaf]; omega)
  rcases Expr.eq_id_of_bare hbare with ⟨b, rfl⟩
  refine ⟨.literal a ⟨a, .typeVar⟩, ?_, rfl⟩
  intro path
  refine .bind (ha path) (.bind .kind (.bind (ha path) (.bind (.enter rfl) ?_)))
  refine .bind .genericCallee_name (.bind (hcallee _) (.bind .text ?_))
  exact .bind .leave (.pure _ _)

/-- A call of a name is sorted by the name. -/
theorem StandsFor.of_callOfName {e : Expr Unit} (onName : Covers source span name.toList)
    (hname : name ≠ "TypeVar") (h : Separated source (StandsFor source) nodes es)
    (onClosing : Covers source closing ")".toList)
    (hcall : ∀ a arguments, Expr.bareAll arguments = es →
      ∃ e', (∀ c, Runs (Lowering.callOfName a name arguments) c e' c) ∧ e'.bare = e) :
    StandsFor source (.branch .callExpression
      [.leaf .variableName span, argumentsNode opening nodes closing]) e := by
  refine .of_walk onName.cuts rfl ?_
  rintro l fuel a rfl hlimit hfuel ha
  simp only [SyntaxNode.size_branch, SyntaxNode.size_leaf, SyntaxNode.sizes_cons,
    SyntaxNode.sizes_nil, size_argumentsNode] at hlimit hfuel
  obtain ⟨callee, hcallee, hbare⟩ := (StandsFor.id onName).lowers l fuel rfl
    (by rw [SyntaxNode.size_leaf]; omega) (by rw [SyntaxNode.size_leaf]; omega)
  rcases Expr.eq_id_of_bare hbare with ⟨b, rfl⟩
  obtain ⟨es', hes, harguments⟩ := Runs.argumentsWith l fuel opening h
    onClosing rfl (by omega) (by omega)
  rcases hcall a es' hes with ⟨e', he, rfl⟩
  refine ⟨e', ?_, rfl⟩
  intro path
  refine .bind (ha path) (.bind .kind (.bind (ha path) (.bind (.enter rfl) ?_)))
  refine .bind .genericCallee_name (.bind (hcallee _) (.bind .text ?_))
  split
  · rename_i heq
    cases heq
    exact absurd rfl hname
  · exact .bind (.step rfl) (.bind (harguments _) (.bind .leave (he _)))

/-- An ordinary name is not that of type parameters. -/
theorem ne_typeVar_of_not_mem (h : name ∉ specialNames) : name ≠ "TypeVar" := by
  rintro rfl
  exact h (by decide)

/-- A call of an ordinary name stands for the call of a function or class. -/
theorem StandsFor.call (onName : Covers source span name.toList) (ordinary : name ∉ specialNames)
    (h : Separated source (StandsFor source) nodes es)
    (onClosing : Covers source closing ")".toList) :
    StandsFor source (.branch .callExpression
      [.leaf .variableName span, argumentsNode opening nodes closing]) (.call () name [] es) := by
  refine .of_callOfName onName (ne_typeVar_of_not_mem ordinary) h onClosing ?_
  rintro a arguments rfl
  refine ⟨.call a name [] arguments, ?_, rfl⟩
  intro c
  have hone : name ∉ Lowering.builtins1 := fun hmem => ordinary (by
    simp only [specialNames, unaryBuiltins, List.mem_cons, List.mem_append]
    exact .inr (.inl (by simpa [Lowering.builtins1] using hmem)))
  have htwo : name ∉ Lowering.builtins2 := fun hmem => ordinary (by
    simp only [specialNames, List.mem_cons, List.mem_append]
    exact .inr (.inr (by simpa [binaryBuiltins, Lowering.builtins2] using hmem)))
  unfold Lowering.callOfName
  rw [if_neg hone, if_neg htwo]
  exact .pure _ _

/-- A call of a builtin function of one argument stands for one. -/
theorem StandsFor.builtin1 {argument : SyntaxNode} {e : Expr Unit}
    (onName : Covers source span name.toList) (builtin : name ∈ unaryBuiltins)
    (onArgument : StandsFor source argument e) (onClosing : Covers source closing ")".toList) :
    StandsFor source (.branch .callExpression
      [.leaf .variableName span, argumentsNode opening [argument] closing])
      (.builtin1 () name e) := by
  have hname : name ≠ "TypeVar" := by
    rintro rfl
    exact absurd builtin (by decide)
  refine .of_callOfName onName hname (.cons onArgument .nil) onClosing ?_
  intro a arguments harguments
  rcases arguments with _ | ⟨argument', _ | ⟨next, more⟩⟩
  · cases harguments
  · rcases List.cons.inj harguments |>.1 with ⟨rfl⟩
    refine ⟨.builtin1 a name argument', ?_, rfl⟩
    intro c
    have hmem : name ∈ Lowering.builtins1 := builtin
    rw [Lowering.callOfName, if_pos hmem]
    exact .pure _ _
  · cases harguments

/-- So does a call of a builtin function of two arguments. -/
theorem StandsFor.builtin2 {left right : SyntaxNode} {e e' : Expr Unit}
    (onName : Covers source span name.toList) (builtin : name ∈ binaryBuiltins)
    (onLeft : StandsFor source left e) (comma : Covers source span' ",".toList)
    (onRight : StandsFor source right e') (onClosing : Covers source closing ")".toList) :
    StandsFor source (.branch .callExpression
      [.leaf .variableName span,
        argumentsNode opening [left, .leaf .punctuation span', right] closing])
      (.builtin2 () name e e') := by
  have hname : name ≠ "TypeVar" := by
    rintro rfl
    exact absurd builtin (by decide)
  refine .of_callOfName onName hname (.cons onLeft (.cons comma onRight .nil)) onClosing ?_
  intro a arguments harguments
  rcases arguments with _ | ⟨left', _ | ⟨right', _ | ⟨next, more⟩⟩⟩
  · cases harguments
  · cases harguments
  · rcases List.cons.inj harguments with ⟨hleft, hrest⟩
    rcases List.cons.inj hrest with ⟨hright, -⟩
    refine ⟨.builtin2 a name left' right', ?_, by rw [← hleft, ← hright]; rfl⟩
    intro c
    have hnot : name ∉ Lowering.builtins1 := by
      revert builtin
      simp only [binaryBuiltins, List.mem_cons, List.not_mem_nil, or_false]
      rintro (rfl | rfl | rfl) <;> decide
    have hmem : name ∈ Lowering.builtins2 := builtin
    rw [Lowering.callOfName, if_neg hnot, if_pos hmem]
    exact .pure _ _
  · cases harguments

/-- A call of a field is a call of a method. -/
theorem StandsFor.methodCall {object : SyntaxNode} {e : Expr Unit} {methodSpan : Span}
    {method : String} (onObject : StandsFor source object e)
    (dot : Covers source span ".".toList) (onMethod : Covers source methodSpan method.toList)
    (h : Separated source (StandsFor source) nodes es)
    (onClosing : Covers source closing ")".toList) :
    StandsFor source (.branch .callExpression
      [.branch .memberExpression
        [object, .leaf .punctuation span, .leaf .propertyName methodSpan],
        argumentsNode opening nodes closing]) (.methodCall () e method es) := by
  have onCallee := StandsFor.lookup onObject dot onMethod
  refine .of_walk onCallee.cuts rfl ?_
  rintro l fuel a rfl hlimit hfuel ha
  simp only [SyntaxNode.size_branch, SyntaxNode.size_leaf, SyntaxNode.sizes_cons,
    SyntaxNode.sizes_nil, size_argumentsNode] at hlimit hfuel
  have hsize : (SyntaxNode.branch .memberExpression
      [object, .leaf .punctuation span, .leaf .propertyName methodSpan]).size =
      object.size + 3 := rfl
  rcases onCallee.lowers l fuel rfl (by omega) (by omega) with ⟨callee, hcallee, hbare⟩
  rcases Expr.eq_lookup_of_bare hbare with ⟨b, object', rfl, hobject⟩
  obtain ⟨es', hes, harguments⟩ := Runs.argumentsWith l fuel opening h
    onClosing rfl (by omega) (by omega)
  refine ⟨.methodCall a object' method es', ?_, by rw [← hobject, ← hes]; rfl⟩
  intro path
  refine .bind (ha path) (.bind .kind (.bind (ha path) (.bind (.enter rfl) ?_)))
  refine .bind (.genericCallee_lookup dot) (.bind (hcallee _) (.bind .text ?_))
  exact .bind (.step rfl) (.bind (harguments _) (.bind .leave (.pure _ _)))

end Forms
end Offside
