import Offside.Proofs.Syntax.Nodes
import Offside.Token

/-!
# Phrases

A syntax tree holds no tokens, only their spans.  A phrase is a node together with the tokens
that its leaves stand for, so that one can ask which word stands at a leaf.

Main definitions:

- `wordsOf`: the tokens of a token list that become leaves.
- `Phrase`: a node with the tokens of its leaves.
- `Phrase.parts` and `Phrase.all`: the phrases right below a phrase, and all phrases in it.
- `Phrase.Exact`: the leaves of a phrase cover its words, one by one.

Main results:

- Theorem `Phrase.map_node_all`: the phrases in a phrase are all its nodes.
- Theorem `Phrase.parts_group`: the parts of a phrase that is made of exact phrases are these.
-/

namespace Offside

/-- The tokens before the end of the file that do not carry layout. -/
def wordsOf (tokens : List Token) : List Token :=
  (tokens.takeWhile fun token => token.kind ≠ .eof).filter fun token => !token.kind.isLayout

/-- A node of a tree with the tokens that its leaves stand for. -/
structure Phrase where
  node : SyntaxNode
  words : List Token

namespace Phrase

/-- The kind of the node of a phrase. -/
def kind (phrase : Phrase) : SyntaxKind := phrase.node.kind

/-- Deals words out to nodes, to each as many as it has leaves. -/
def dealOut : List SyntaxNode → List Token → List Phrase
  | [], _ => []
  | node :: rest, words =>
    ⟨node, words.take node.leaves.length⟩ :: dealOut rest (words.drop node.leaves.length)

/-- The phrases of the children of a node. -/
def parts (phrase : Phrase) : List Phrase := dealOut phrase.node.children phrase.words

mutual

/-- The phrases of a tree with some words, each before those in it. -/
def allIn : SyntaxNode → List Token → List Phrase
  | ⟨kind, span, children⟩, words => ⟨⟨kind, span, children⟩, words⟩ :: allInEach children words

/-- The phrases of several trees to which words are dealt out. -/
def allInEach : List SyntaxNode → List Token → List Phrase
  | [], _ => []
  | node :: rest, words =>
    allIn node (words.take node.leaves.length) ++
      allInEach rest (words.drop node.leaves.length)

end

/-- A phrase and all phrases in it. -/
def all (phrase : Phrase) : List Phrase := allIn phrase.node phrase.words

/-- The phrases in a row of nodes are those in each, over the words dealt out to it. -/
theorem allInEach_eq (nodes : List SyntaxNode) (words : List Token) :
    allInEach nodes words = (dealOut nodes words).flatMap all := by
  induction nodes generalizing words with
  | nil => rfl
  | cons node nodes ih => rw [allInEach, dealOut, List.flatMap_cons, ih, all]

/-- The phrases in a phrase are itself and those in its parts. -/
theorem all_eq (phrase : Phrase) : phrase.all = phrase :: phrase.parts.flatMap all := by
  rw [parts, ← allInEach_eq]
  rcases phrase with ⟨⟨kind, span, children⟩, words⟩
  rfl

mutual

/-- The nodes of the phrases in a tree are all its nodes. -/
theorem map_node_allIn : ∀ (node : SyntaxNode) (words : List Token),
    (allIn node words).map Phrase.node = node.nodes
  | ⟨kind, span, children⟩, words => by
    rw [allIn, List.map_cons, map_node_allInEach children words, SyntaxNode.nodes]

/-- So they are for a row of trees. -/
theorem map_node_allInEach : ∀ (nodes : List SyntaxNode) (words : List Token),
    (allInEach nodes words).map Phrase.node = SyntaxNode.nodesOf nodes
  | [], _ => rfl
  | node :: rest, words => by
    rw [allInEach, List.map_append, map_node_allIn node, map_node_allInEach rest,
      SyntaxNode.nodesOf]

end

/-- The phrases in a phrase are its nodes, in order. -/
theorem map_node_all (phrase : Phrase) : phrase.all.map Phrase.node = phrase.node.nodes :=
  map_node_allIn phrase.node phrase.words

/-- A phrase is one of those in it. -/
theorem mem_all_self (phrase : Phrase) : phrase ∈ phrase.all := by
  rw [all_eq]
  exact List.mem_cons_self

/-! ## Exact phrases -/

/-- The leaves of a phrase cover its words, one by one. -/
def Exact (phrase : Phrase) : Prop :=
  phrase.node.leaves.map SyntaxNode.span = phrase.words.map Token.span

/-- A token as a leaf. -/
def ofToken (kind : SyntaxKind) (token : Token) : Phrase := ⟨.leaf kind token.span, [token]⟩

/-- A node over phrases. -/
def group (kind : SyntaxKind) (phrases : List Phrase) : Phrase :=
  ⟨.branch kind (phrases.map node), phrases.flatMap words⟩

/-- A single token is of the kind that it is given. -/
@[simp]
theorem kind_ofToken (kind : SyntaxKind) (token : Token) : (ofToken kind token).kind = kind := rfl

/-- So is a phrase that is put together. -/
@[simp]
theorem kind_group (kind : SyntaxKind) (phrases : List Phrase) :
    (group kind phrases).kind = kind := rfl

/-- A single token is the only word. -/
@[simp]
theorem words_ofToken (kind : SyntaxKind) (token : Token) :
    (ofToken kind token).words = [token] := rfl

/-- The words of a phrase are those of its parts. -/
@[simp]
theorem words_group (kind : SyntaxKind) (phrases : List Phrase) :
    (group kind phrases).words = phrases.flatMap words := rfl

/-- A single token has a word for its leaf. -/
theorem exact_ofToken {kind : SyntaxKind} (h : kind.isLeaf = true) (token : Token) :
    (ofToken kind token).Exact := by
  rw [Exact, ofToken, SyntaxNode.leaves_leaf h]
  rfl

/-- An exact phrase has as many words as leaves. -/
theorem Exact.length_eq {phrase : Phrase} (h : phrase.Exact) :
    phrase.node.leaves.length = phrase.words.length := by
  simpa using congrArg List.length h

/-- The leaves of exact phrases cover their words. -/
theorem map_span_leaves {phrases : List Phrase} (h : ∀ phrase ∈ phrases, phrase.Exact) :
    ((phrases.map node).flatMap SyntaxNode.leaves).map SyntaxNode.span =
      (phrases.flatMap words).map Token.span := by
  induction phrases with
  | nil => rfl
  | cons phrase phrases ih =>
    have hphrase : phrase.Exact := h phrase List.mem_cons_self
    have hmore := ih fun other hother => h other (List.mem_cons_of_mem _ hother)
    simp only [List.map_cons, List.flatMap_cons, List.map_append, hmore]
    rw [hphrase]

/-- Exact parts make up an exact phrase. -/
theorem exact_group {kind : SyntaxKind} (hkind : kind.isLeaf = false) {phrases : List Phrase}
    (h : ∀ phrase ∈ phrases, phrase.Exact) : (group kind phrases).Exact := by
  have hleaves := map_span_leaves h
  rw [Exact, SyntaxNode.leaves_eq_flatMap hkind]
  exact hleaves

/-- The words of exact phrases are dealt out to these phrases. -/
theorem dealOut_map_node {phrases : List Phrase} (h : ∀ phrase ∈ phrases, phrase.Exact) :
    dealOut (phrases.map node) (phrases.flatMap words) = phrases := by
  induction phrases with
  | nil => rfl
  | cons phrase phrases ih =>
    have hlength := (h phrase List.mem_cons_self).length_eq
    have hmore := ih fun other hother => h other (List.mem_cons_of_mem _ hother)
    simp only [List.map_cons, List.flatMap_cons, dealOut, hlength, List.take_left',
      List.drop_left', hmore]

/-- The parts of a phrase that is made of exact phrases are these. -/
theorem parts_group (kind : SyntaxKind) {phrases : List Phrase}
    (h : ∀ phrase ∈ phrases, phrase.Exact) : (group kind phrases).parts = phrases :=
  dealOut_map_node h

/-- The phrases in exact parts are those in what they make up. -/
theorem all_group (kind : SyntaxKind) {phrases : List Phrase}
    (h : ∀ phrase ∈ phrases, phrase.Exact) :
    (group kind phrases).all = group kind phrases :: phrases.flatMap all := by
  rw [all_eq, parts_group kind h]

/-- A single token is the only phrase in it. -/
theorem all_ofToken (kind : SyntaxKind) (token : Token) :
    (ofToken kind token).all = [ofToken kind token] := rfl

end Phrase
end Offside
