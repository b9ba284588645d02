import Offside.Proofs.Parsing.Readers

/-!
# The leaves of a tree

Parsing loses, invents, doubles and moves no token: the leaves of the tree are the tokens that
do not carry layout, in order.

Main results:

- Theorem `parse_root`: what is known of the tree of a token list, as a phrase over the words of
  the list.
- Theorem `parse_leaves`: the leaves of the tree cover the words of the token list.
-/

namespace Offside

/-! ## Words -/

/-- What is read before the end of the file are the words of a token list. -/
theorem wordsOf_eq {tokens words rest : List Token} (h : Consumes tokens words rest)
    (hend : nextKind rest = .eof) : wordsOf tokens = words := by
  rcases h with ⟨read, rfl, hread, rfl⟩
  have hrest : rest.takeWhile (fun token => token.kind ≠ .eof) = [] := by
    cases rest with
    | nil => rfl
    | cons token rest =>
      have hkind : token.kind = .eof := hend
      simp [hkind]
  rw [wordsOf, List.takeWhile_append_of_pos (by simpa using hread), hrest, List.append_nil]

/-- Completing a token list adds no word. -/
theorem wordsOf_complete (tokens : List Token) (stop : Nat) :
    wordsOf (TokenStream.complete tokens stop) = wordsOf tokens := by
  have hadd : wordsOf (tokens ++ [.eof stop]) = wordsOf tokens := by
    have htake : (tokens ++ [Token.eof stop]).takeWhile (fun token => token.kind ≠ TokenKind.eof) =
        tokens.takeWhile fun token => token.kind ≠ TokenKind.eof := by
      induction tokens with
      | nil => rfl
      | cons token tokens ih =>
        by_cases hkind : token.kind = .eof
        · simp [hkind]
        · rw [List.cons_append, List.takeWhile_cons_of_pos (by simpa using hkind),
            List.takeWhile_cons_of_pos (by simpa using hkind), ih]
    rw [wordsOf, htake]
    rfl
  unfold TokenStream.complete
  split
  · rfl
  · exact hadd

/-! ## Trees -/

/-- The tree of a token list is a phrase over the words of the list: it is a script, its
statements are derived from tokens of the list, and they have its words. -/
theorem parse_root {tokens : List Token} {source : Source} {tree : SyntaxNode}
    (h : parse tokens source = .ok tree) :
    tree.kind = .script ∧ ∃ phrases start rest, tree.children = phrases.map Phrase.node ∧
      wordsOf tokens = phrases.flatMap Phrase.words ∧
      Derives (.many (.form .statement)) start phrases rest := by
  obtain ⟨phrases, rest, rfl, hderives, hend⟩ := parse_derives h
  have hwords := wordsOf_eq hderives.consumes hend
  rw [wordsOf_complete] at hwords
  exact ⟨rfl, phrases, _, rest, rfl, hwords, hderives⟩

/-- The leaves of the tree of a token list cover the words of the list: the tokens before the
end of the file that do not carry layout, in order. -/
theorem parse_leaves {tokens : List Token} {source : Source} {tree : SyntaxNode}
    (h : parse tokens source = .ok tree) :
    tree.leaves.map SyntaxNode.span = (wordsOf tokens).map Token.span := by
  obtain ⟨hkind, phrases, start, rest, hchildren, hwords, hderives⟩ := parse_root h
  have hleaf : tree.kind.isLeaf = false := by
    rw [hkind]
    rfl
  rw [SyntaxNode.leaves_eq_flatMap hleaf, hchildren, hwords]
  exact Phrase.map_span_leaves hderives.exact

/-- A conditional statement with a call in its block, whose condition lacks a parenthesis: the
layout leaves no trace in the tree, and everything else is in it once. -/
theorem parse_leaves_openParenthesis :
    ∃ tree, parse
        [⟨.ifWord, "if", ⟨0, 2⟩⟩, ⟨.openParen, "(", ⟨3, 4⟩⟩, ⟨.identifier, "a", ⟨4, 5⟩⟩,
          ⟨.colon, ":", ⟨5, 6⟩⟩, .newline ⟨6, 7⟩, .indent ⟨7, 9⟩, ⟨.identifier, "f", ⟨9, 10⟩⟩,
          ⟨.openParen, "(", ⟨10, 11⟩⟩, ⟨.number, "1", ⟨11, 12⟩⟩, ⟨.comma, ",", ⟨12, 13⟩⟩,
          ⟨.closeParen, ")", ⟨13, 14⟩⟩, .newline ⟨14, 15⟩, .dedent 15] [] = .ok tree ∧
      tree.leaves.map SyntaxNode.span =
        [⟨0, 2⟩, ⟨3, 4⟩, ⟨4, 5⟩, ⟨5, 6⟩, ⟨9, 10⟩, ⟨10, 11⟩, ⟨11, 12⟩, ⟨12, 13⟩, ⟨13, 14⟩] :=
  Exists.imp (fun _ hparse => ⟨hparse, parse_leaves hparse⟩) ⟨_, rfl⟩

end Offside
