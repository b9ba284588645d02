import Offside.Proofs.Layout.Scans

/-!
# Blocks hold something

A block is opened by a line with words on it, and closed at the start of a later line or at the
end of the source.  So the tokens of a source never close a block right where they open it.

Main definitions:

- `BlocksFilled`: no block of a row of tokens is closed right where it is opened.
- `Scanner.Filled`: the same of what a scanner has read so far.

Main results:

- Theorem `tokenize_blocksFilled`: the blocks of a source are filled.
-/

namespace Offside

/-- No block of a row of tokens is closed right where it is opened. -/
def BlocksFilled (tokens : List Token) : Prop :=
  ¬[TokenKind.indent, .dedent] <:+: tokens.map Token.kind

/-- What holds of the blocks of all tokens holds of those of the last ones. -/
theorem BlocksFilled.of_append {before after : List Token} (h : BlocksFilled (before ++ after)) :
    BlocksFilled after := by
  intro hclosed
  rw [BlocksFilled, List.map_append] at h
  exact h (hclosed.trans (List.suffix_append _ _).isInfix)

/-! ## Rows of kinds, the newest first -/

section Kinds

variable {kinds : List TokenKind} {kind : TokenKind}

/-- A kind on top of a row closes no block that has just been opened. -/
theorem not_infix_cons (h : ¬[TokenKind.dedent, .indent] <:+: kinds)
    (hkind : kind = .dedent → kinds.head? ≠ some .indent) :
    ¬[TokenKind.dedent, .indent] <:+: kind :: kinds := by
  rw [List.infix_cons_iff]
  rintro (htop | hbelow)
  · rw [List.cons_prefix_cons] at htop
    rcases htop with ⟨rfl, more, rfl⟩
    exact hkind rfl rfl
  · exact h hbelow

theorem not_infix_cons_of_ne (h : ¬[TokenKind.dedent, .indent] <:+: kinds)
    (hkind : kind ≠ .dedent) : ¬[TokenKind.dedent, .indent] <:+: kind :: kinds :=
  not_infix_cons h fun hdedent => absurd hdedent hkind

/-- Blocks are closed on top of a row that has not just opened one. -/
theorem not_infix_replicate (h : ¬[TokenKind.dedent, .indent] <:+: kinds)
    (hhead : kinds.head? ≠ some .indent) (count : Nat) :
    ¬[TokenKind.dedent, .indent] <:+: List.replicate count TokenKind.dedent ++ kinds := by
  induction count with
  | zero => exact h
  | succ count ih =>
    refine not_infix_cons ih fun _ => ?_
    cases count with
    | zero => exact hhead
    | succ count => exact nofun

end Kinds

/-! ## Runs -/

namespace Scanner

variable {source text rest : Source} {role : Role} {s t : Scanner}

/-- The blocks so far are filled, and where a line starts none has just been opened. -/
structure Filled (s : Scanner) : Prop where
  filled : ¬[TokenKind.dedent, .indent] <:+: s.kinds
  opened : s.atLineStart = true → s.kinds.head? ≠ some .indent

theorem Filled.start (source : Source) : (Scanner.start source).Filled where
  filled := by simp [Scanner.kinds, Scanner.start]
  opened _ := by simp [Scanner.kinds, Scanner.start]

/-- Behind the end of a line no block has just been opened. -/
theorem Filled.closedKinds (h : s.Filled) :
    ¬[TokenKind.dedent, .indent] <:+: s.closedKinds ∧ s.closedKinds.head? ≠ some .indent := by
  cases hclosed : s.isClosed with
  | true =>
    rw [closedKinds_of_isClosed hclosed]
    refine ⟨h.filled, fun hhead => ?_⟩
    simp [isClosed, lastKind?_eq, hhead] at hclosed
  | false =>
    rw [Scanner.closedKinds, if_neg (Bool.eq_false_iff.mp hclosed)]
    exact ⟨not_infix_cons_of_ne h.filled (by decide), by simp⟩

/-- The start of a line opens one block or closes some. -/
theorem Filled.indentTo (h : s.Filled) (hhead : s.kinds.head? ≠ some .indent) (width : Nat) :
    ¬[TokenKind.dedent, .indent] <:+: (s.indentTo width).kinds := by
  by_cases hwidth : s.width < width
  · rw [Scanner.indentTo, if_pos hwidth]
    exact not_infix_cons_of_ne h.filled (by simp [Token.indent])
  · have hkinds : (s.indentTo width).kinds =
        List.replicate (s.blocks.takeWhile (width < ·)).length TokenKind.dedent ++ s.kinds := by
      rw [indentTo_of_le hwidth, kinds, List.map_append, List.map_replicate]
      rfl
    rw [hkinds]
    exact not_infix_replicate h.filled hhead _

theorem Filled.startLine (h : s.Filled) (hstart : s.atLineStart = true)
    (hline : s.startLine source = .ok t) : t.Filled := by
  have hopened := (rest_of_startLine hline).2
  refine ⟨?_, fun hnext => absurd (hopened.symm.trans hnext) nofun⟩
  rcases eq_of_startLine hline with rfl | ⟨width, rfl⟩
  · exact h.filled
  · exact Filled.indentTo (s := { s with atLineStart := false }) ⟨h.filled, nofun⟩
      (h.opened hstart) width

/-- A reading adds no layout but the end of a line. -/
theorem Filled.read (h : s.Filled) (hfirst : Pattern.first? s.rest = some (role, text, rest)) :
    (s.read role text rest).Filled := by
  by_cases hbreak : role = .lineBreak ∧ s.depth = 0
  · rcases hbreak with ⟨rfl, hdepth⟩
    have hkinds := (read_lineBreak text rest hdepth).1
    exact ⟨hkinds ▸ h.closedKinds.1, fun _ => hkinds ▸ h.closedKinds.2⟩
  · obtain ⟨hkinds, -, -, hstart⟩ := read_inside text rest hbreak
    cases hword : Lexeme.kind? ⟨some role, text⟩ with
    | none =>
      rw [hword] at hkinds
      exact ⟨hkinds ▸ h.filled, fun hnext => hkinds ▸ h.opened (hstart ▸ hnext)⟩
    | some kind =>
      rw [hword] at hkinds
      have hlayout : kind.isLayout = false := isLayout_of_first? hfirst hword
      refine ⟨hkinds ▸ not_infix_cons_of_ne h.filled ?_, fun _ hhead => ?_⟩
      · rintro rfl
        cases hlayout
      · rw [hkinds] at hhead
        cases hhead
        cases hlayout

end Scanner

/-! ## Sources -/

/-- The blocks of a source are filled. -/
theorem tokenize_blocksFilled {source : Source} {tokens : List Token}
    (h : tokenize source = .ok tokens) : BlocksFilled tokens := by
  unfold tokenize at h
  cases hrun : Scanner.run source source.length (.start source) with
  | error failure =>
    rw [hrun] at h
    cases h
  | ok last =>
    rw [hrun] at h
    cases h
    have hfilled : last.Filled := Scanner.run_keeps Scanner.Filled.startLine
      (fun hfilled _ hfirst => hfilled.read hfirst) (.start source) hrun
    obtain ⟨hclosed, hhead⟩ := hfilled.closedKinds
    rw [BlocksFilled, Scanner.finish_kinds, ← List.reverse_infix]
    simp only [List.reverse_append, List.reverse_reverse, List.reverse_replicate]
    exact not_infix_cons_of_ne (not_infix_replicate hclosed hhead _) (by decide)

end Offside
