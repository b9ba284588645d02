import Offside.Lowering.Walk
import Offside.Proofs.Parsing.Shapes
import Offside.Proofs.Syntax.Brackets

/-!
# What lowering passes over

The walks over a tree do not look at all of it: of an index they see the first expression in the
brackets, and of a call of `TypeVar` what is called.  This module says what the brackets of a
phrase have to do with the brackets of the parts that are passed over.

Main definitions:

- `Lowering.passedOver`: the parts of a phrase that a walk over it may pass over.
- `Lowering.PassesNested`: wherever something in a phrase may be passed over, it has nested
  brackets.
- `Phrase.Row`: the brackets in a row of phrases.
- `Lowering.Tracked`: the phrases in a phrase with nested brackets have nested brackets.

Main results:

- Theorem `Phrase.Row.brackets`: the brackets of a row are those of its phrases.
- Theorem `Phrase.IsExpr.tracked`: the brackets of expressions are tracked.
-/

namespace Offside

open Phrase

/-! ## Parts passed over -/

namespace Lowering

variable (l : Lowering)

/-- Whether a callee may be taken for the maker of type variables: its text, or a word of it, is
`TypeVar`. -/
def makesTypeVar (callee : Phrase) : Bool :=
  l.textOf callee.node.span = "TypeVar" || callee.words.any fun word => word.text = "TypeVar"

/-- The parts of a phrase with the given kind and parts that a walk over it may pass over.  In the
brackets of an index these are all but the first. -/
def passedOverAmong (kind : SyntaxKind) (parts : List Phrase) : List Phrase :=
  between <| match kind, parts with
    | .memberExpression, _ :: _ :: rest =>
      (rest.dropLast.dropWhile fun part => part.kind = .punctuation).drop 1
    | .callExpression, callee :: arguments =>
      if l.makesTypeVar callee then callee :: arguments else []
    | _, _ => []

/-- The parts of a phrase that a walk over it may pass over. -/
def passedOver (phrase : Phrase) : List Phrase := l.passedOverAmong phrase.kind phrase.parts

/-- Wherever a part of something in a phrase may be passed over, its brackets are nested. -/
def PassesNested (phrase : Phrase) : Prop :=
  ∀ inner ∈ phrase.all, ∀ part ∈ l.passedOver inner, Nested part.words

variable {l}

/-- Parts that are passed over are parts, and no punctuation. -/
theorem mem_of_mem_passedOverAmong {kind : SyntaxKind} {parts : List Phrase} {part : Phrase}
    (h : part ∈ l.passedOverAmong kind parts) : part ∈ parts ∧ part.kind ≠ .punctuation := by
  unfold passedOverAmong at h
  rw [between, List.mem_filter] at h
  obtain ⟨hmem, hkind⟩ := h
  refine ⟨?_, by simpa using hkind⟩
  split at hmem
  · have hrest := (List.dropWhile_sublist _).subset (List.mem_of_mem_drop hmem)
    exact List.mem_cons_of_mem _ (List.mem_cons_of_mem _ (List.dropLast_subset _ hrest))
  · split at hmem
    · exact hmem
    · exact absurd hmem List.not_mem_nil
  · exact absurd hmem List.not_mem_nil

/-- In a single token nothing is passed over. -/
theorem passesNested_ofToken (kind : SyntaxKind) (token : Token) :
    l.PassesNested (ofToken kind token) := by
  rw [PassesNested, all_ofToken]
  intro inner hinner part hpart
  obtain rfl := List.mem_singleton.mp hinner
  cases (mem_of_mem_passedOverAmong hpart).1

/-- What may be passed over in a phrase is what may be passed over of it and in its parts. -/
theorem passesNested_group {kind : SyntaxKind} {parts : List Phrase}
    (hexact : ∀ part ∈ parts, part.Exact) :
    l.PassesNested (group kind parts) ↔
      (∀ part ∈ l.passedOverAmong kind parts, Nested part.words) ∧
        ∀ part ∈ parts, l.PassesNested part := by
  have hself : l.passedOver (group kind parts) = l.passedOverAmong kind parts := by
    rw [passedOver, parts_group kind hexact, kind_group]
  simp only [PassesNested, all_group kind hexact, List.forall_mem_cons, hself, List.mem_flatMap]
  exact and_congr_right fun _ =>
    ⟨fun h part hpart inner hinner => h inner ⟨part, hpart, hinner⟩,
      fun h inner ⟨part, hpart, hinner⟩ => h part hpart inner hinner⟩

end Lowering

/-! ## Rows of phrases -/

/-- A row of phrases with brackets between them.  In a strict row each bracket is closed by one of
its kind. -/
inductive Phrase.Row : Bool → List Phrase → Prop
  | nil {strict} : Row strict []
  | part {strict part more} (notMark : part.kind ≠ .punctuation) (onMore : Row strict more) :
      Row strict (part :: more)
  | mark {strict token more} (notBracket : token.kind.isBracket = false)
      (onMore : Row strict more) : Row strict (ofToken .punctuation token :: more)
  | wrap {strict opening inside closing more kind} (opens : opening.kind.closing? = some kind)
      (closes : closing.kind.isClosing = true) (matching : strict = true → closing.kind = kind)
      (onInside : Row strict inside) (onMore : Row strict more) :
      Row strict (ofToken .punctuation opening :: inside ++
        ofToken .punctuation closing :: more)
  | unclosed {opening inside kind} (opens : opening.kind.closing? = some kind)
      (onInside : Row false inside) : Row false (ofToken .punctuation opening :: inside)

namespace Phrase.Row

variable {strict : Bool} {parts : List Phrase}

/-- A row without brackets. -/
theorem of_marks (h : ∀ part ∈ parts, part.kind = .punctuation →
    part.IsMark fun kind => kind.isBracket = false) : Row strict parts := by
  induction parts with
  | nil => exact .nil
  | cons part more ih =>
    rw [List.forall_mem_cons] at h
    by_cases hkind : part.kind = .punctuation
    · rcases h.1 hkind with ⟨token, notBracket, rfl⟩
      exact .mark notBracket (ih h.2)
    · exact .part hkind (ih h.2)

/-- A row without marks. -/
theorem of_parts (h : ∀ part ∈ parts, part.kind ≠ .punctuation) : Row strict parts :=
  of_marks fun part hpart hkind => absurd hkind (h part hpart)

/-- The marks of a row are single tokens. -/
theorem marks (h : Row strict parts) :
    ∀ part ∈ parts, part.kind = .punctuation → ∃ token, part = ofToken .punctuation token := by
  induction h with
  | nil => exact nofun
  | part notMark _ ih => exact List.forall_mem_cons.mpr ⟨fun hkind => absurd hkind notMark, ih⟩
  | mark _ _ ih | unclosed _ _ ih => exact List.forall_mem_cons.mpr ⟨fun _ => ⟨_, rfl⟩, ih⟩
  | wrap _ _ _ _ _ ihInside ihMore =>
    intro part hpart hkind
    simp only [List.cons_append, List.mem_cons, List.mem_append] at hpart
    rcases hpart with rfl | hinside | rfl | hmore
    · exact ⟨_, rfl⟩
    · exact ihInside part hinside hkind
    · exact ⟨_, rfl⟩
    · exact ihMore part hmore hkind

/-- If the phrases of a row close no brackets from before them, neither does the row.  If the row
is nested, so are its phrases; and in a strict row the other way round. -/
theorem brackets (h : Row strict parts)
    (heach : ∀ part ∈ parts, part.kind ≠ .punctuation → Grounded part.words) :
    Grounded (parts.flatMap words) ∧
      (Nested (parts.flatMap words) →
        ∀ part ∈ parts, part.kind ≠ .punctuation → Nested part.words) ∧
      (strict = true → (∀ part ∈ parts, part.kind ≠ .punctuation → Nested part.words) →
        Nested (parts.flatMap words)) := by
  induction h with
  | nil => exact ⟨grounded_nil, fun _ => nofun, fun _ _ => nested_nil⟩
  | @part strict part more notMark _ ih =>
    rw [List.forall_mem_cons] at heach
    obtain ⟨hmore, hdown, hup⟩ := ih heach.2
    rw [List.flatMap_cons, nested_append_iff hmore]
    refine ⟨(heach.1 notMark).append hmore, fun hboth => ?_, fun hstrict hall => ?_⟩
    · exact List.forall_mem_cons.mpr ⟨fun _ => hboth.1, hdown hboth.2⟩
    · rw [List.forall_mem_cons] at hall
      exact ⟨hall.1 notMark, hup hstrict hall.2⟩
  | @mark strict token more notBracket _ ih =>
    rw [List.forall_mem_cons] at heach
    obtain ⟨hmore, hdown, hup⟩ := ih heach.2
    rw [List.flatMap_cons, nested_append_iff hmore]
    refine ⟨(grounded_of_other notBracket).append hmore, fun hboth => ?_, fun hstrict hall => ?_⟩
    · exact List.forall_mem_cons.mpr ⟨fun hkind => absurd rfl hkind, hdown hboth.2⟩
    · exact ⟨nested_of_other notBracket, hup hstrict (List.forall_mem_cons.mp hall).2⟩
  | @wrap strict opening inside closing more kind opens closes matching _ _ ihInside ihMore =>
    simp only [List.cons_append, List.forall_mem_cons, List.forall_mem_append] at heach ⊢
    obtain ⟨-, heachInside, -, heachMore⟩ := heach
    obtain ⟨hinside, hdownInside, hupInside⟩ := ihInside heachInside
    obtain ⟨hmore, hdownMore, hupMore⟩ := ihMore heachMore
    have hwords : (ofToken .punctuation opening :: (inside ++
        ofToken .punctuation closing :: more)).flatMap words =
          (opening :: inside.flatMap words ++ [closing]) ++ more.flatMap words := by
      simp
    rw [hwords, nested_append_iff hmore, nested_wrap_iff opens closes hinside]
    refine ⟨(grounded_wrap opens closes hinside).append hmore, ?_, ?_⟩
    · rintro ⟨⟨hnested, -⟩, hnestedMore⟩
      exact ⟨fun hkind => absurd rfl hkind, hdownInside hnested, fun hkind => absurd rfl hkind,
        hdownMore hnestedMore⟩
    · rintro hstrict ⟨-, hallInside, -, hallMore⟩
      exact ⟨⟨hupInside hstrict hallInside, matching hstrict⟩, hupMore hstrict hallMore⟩
  | @unclosed opening inside kind opens _ ih =>
    rw [List.forall_mem_cons] at heach
    obtain ⟨hinside, -, -⟩ := ih heach.2
    refine ⟨grounded_open opens hinside, fun hnested => ?_, nofun⟩
    exact absurd hnested (not_nested_open opens hinside)

end Phrase.Row

/-! ## Phrases -/

namespace Lowering

variable {l : Lowering} {strict : Bool} {kind : SyntaxKind} {token : Token} {phrase : Phrase}
  {parts : List Phrase}

/-- A phrase closes no brackets from before it, and if its brackets are nested, so are those of
anything in it that may be passed over. -/
structure Tracked (l : Lowering) (phrase : Phrase) : Prop where
  exact : phrase.Exact
  grounded : Grounded phrase.words
  passesNested : Nested phrase.words → l.PassesNested phrase

/-- A phrase is tracked, and its brackets are nested if those of anything in it that may be passed
over are. -/
structure Covered (l : Lowering) (phrase : Phrase) : Prop extends l.Tracked phrase where
  nested : l.PassesNested phrase → Nested phrase.words

/-- A single token that is no bracket is covered. -/
theorem covered_ofToken (hleaf : kind.isLeaf = true) (h : token.kind.isBracket = false) :
    l.Covered (ofToken kind token) where
  exact := exact_ofToken hleaf token
  grounded := grounded_of_other h
  passesNested _ := passesNested_ofToken kind token
  nested _ := nested_of_other h

/-- So is a keyword or mark that is no bracket. -/
theorem covered_word {word : TokenKind} (h : token.kind = word) (hleaf : kind.isLeaf = true)
    (hword : word.isBracket = false) : l.Covered (ofToken kind token) :=
  covered_ofToken hleaf (h ▸ hword)

/-- The marks and the tracked phrases of a row are exact. -/
theorem exact_of_row (hrow : Row strict parts)
    (heach : ∀ part ∈ parts, part.kind ≠ .punctuation → l.Tracked part) :
    ∀ part ∈ parts, part.Exact := by
  intro part hpart
  by_cases hmark : part.kind = .punctuation
  · rcases hrow.marks part hpart hmark with ⟨token, rfl⟩
    exact exact_ofToken rfl token
  · exact (heach part hpart hmark).exact

/-- A phrase that is a row of tracked phrases is tracked. -/
theorem tracked_group (hkind : kind.isLeaf = false) (hrow : Row strict parts)
    (heach : ∀ part ∈ parts, part.kind ≠ .punctuation → l.Tracked part) :
    l.Tracked (group kind parts) := by
  have hexact := exact_of_row hrow heach
  obtain ⟨hgrounded, hdown, -⟩ :=
    hrow.brackets fun part hpart hmark => (heach part hpart hmark).grounded
  refine ⟨exact_group hkind hexact, hgrounded, fun hnested => ?_⟩
  rw [passesNested_group hexact]
  constructor
  · intro part hpart
    obtain ⟨hmem, hmark⟩ := mem_of_mem_passedOverAmong hpart
    exact hdown hnested part hmem hmark
  · intro part hpart
    by_cases hmark : part.kind = .punctuation
    · rcases hrow.marks part hpart hmark with ⟨token, rfl⟩
      exact passesNested_ofToken _ token
    · exact (heach part hpart hmark).passesNested (hdown hnested part hpart hmark)

/-- A phrase that is a row of tracked phrases without marks is tracked. -/
theorem tracked_of_parts (hkind : kind.isLeaf = false)
    (h : ∀ part ∈ parts, part.kind ≠ .punctuation ∧ l.Tracked part) :
    l.Tracked (group kind parts) :=
  tracked_group hkind (@Row.of_parts true _ fun part hpart => (h part hpart).1)
    fun part hpart _ => (h part hpart).2

/-- A phrase that is a strict row of phrases, each of which is covered or may be passed over, is
covered. -/
theorem covered_group (hkind : kind.isLeaf = false) (hrow : Row true parts)
    (heach : ∀ part ∈ parts, part.kind ≠ .punctuation →
      l.Covered part ∨ l.Tracked part ∧ part ∈ l.passedOverAmong kind parts) :
    l.Covered (group kind parts) := by
  have htracked (part : Phrase) (hpart : part ∈ parts) (hmark : part.kind ≠ .punctuation) :
      l.Tracked part :=
    (heach part hpart hmark).elim Covered.toTracked And.left
  refine ⟨tracked_group hkind hrow htracked, fun hpasses => ?_⟩
  rw [passesNested_group (exact_of_row hrow htracked)] at hpasses
  obtain ⟨-, -, hup⟩ := hrow.brackets fun part hpart hmark => (htracked part hpart hmark).grounded
  refine hup rfl fun part hpart hmark => ?_
  rcases heach part hpart hmark with hcovered | ⟨-, hpassed⟩
  · exact hcovered.nested (hpasses.2 part hpart)
  · exact hpasses.1 part hpassed

end Lowering

/-! ## Expressions -/

section Expressions

open Lowering

variable {l : Lowering} {phrase : Phrase}

/-- A row of expressions between marks that are no brackets. -/
theorem row_of_items {strict : Bool} {accepts : TokenKind → Prop} {items : List Phrase}
    (hmarks : ∀ part ∈ items, part.kind = .punctuation → part.IsMark accepts)
    (haccepts : ∀ kind, accepts kind → kind.isBracket = false) : Row strict items :=
  .of_marks fun part hpart hkind => by
    rcases hmarks part hpart hkind with ⟨token, htoken, rfl⟩
    exact ⟨token, haccepts _ htoken, rfl⟩

/-- Commas make up a row. -/
theorem row_of_commas {strict : Bool} {items : List Phrase} (hcommas : CommasOnly items) :
    Row strict items :=
  row_of_items hcommas fun _ hkind => by rw [hkind]; rfl

/-- No binary operator is a bracket. -/
theorem not_isBracket_of_binary {kind : TokenKind} {power : Power}
    (h : Grammar.standard.suffix kind = some (power, .binary)) : kind.isBracket = false := by
  cases kind <;> first | rfl | cases h

/-- A comprehension is no leaf, and it starts with an opening bracket. -/
theorem of_comprehensionOpening {kind : SyntaxKind} {opening : TokenKind}
    (h : comprehensionOpening kind = some opening) :
    kind.isLeaf = false ∧ ∃ closing, opening.closing? = some closing := by
  cases kind <;> cases h <;> exact ⟨rfl, _, rfl⟩

/-- Nothing is asked of a mark. -/
theorem of_mark {token : Token} {Q : Prop} (h : (ofToken .punctuation token).kind ≠ .punctuation) :
    Q := absurd rfl h

/-- A keyword or mark that is no bracket is tracked. -/
theorem tracked_word {kind : SyntaxKind} {token : Token} {word : TokenKind}
    (h : token.kind = word) (hleaf : kind.isLeaf = true) (hword : word.isBracket = false) :
    l.Tracked (ofToken kind token) :=
  (covered_word h hleaf hword).toTracked

section Enclosed

variable {kind : SyntaxKind} {opening : Token} {matching : TokenKind} {inside : List Phrase}

/-- A row of tracked phrases in brackets is tracked, also if the brackets do not match or are not
closed. -/
theorem tracked_enclosed (hkind : kind.isLeaf = false)
    (opens : opening.kind.closing? = some matching) (closing : Option Token)
    (closes : ∀ token ∈ closing, token.kind.isClosing = true) (hinside : Row false inside)
    (heach : ∀ part ∈ inside, part.kind ≠ .punctuation → l.Tracked part) :
    l.Tracked
      (group kind (ofToken .punctuation opening :: (inside ++ optionalMark closing))) := by
  cases closing with
  | none =>
    rw [optionalMark, Option.toList_none, List.map_nil, List.append_nil]
    exact tracked_group hkind (.unclosed opens hinside)
      (List.forall_mem_cons.mpr ⟨of_mark, heach⟩)
  | some closing =>
    have hrow : Row false (ofToken .punctuation opening :: inside ++
        [ofToken .punctuation closing]) :=
      .wrap opens (closes closing rfl) nofun hinside .nil
    apply tracked_group hkind hrow
    simp only [List.cons_append, List.forall_mem_cons, List.forall_mem_append]
    exact ⟨of_mark, heach, of_mark, nofun⟩

/-- A row of tracked phrases without marks in brackets is tracked. -/
theorem tracked_enclosed_parts {closing : Token} (hkind : kind.isLeaf = false)
    (opens : opening.kind.closing? = some matching) (closes : closing.kind.isClosing = true)
    (h : ∀ part ∈ inside, part.kind ≠ .punctuation ∧ l.Tracked part) :
    l.Tracked (group kind
      (ofToken .punctuation opening :: inside ++ [ofToken .punctuation closing])) :=
  have hcloses : ∀ token ∈ some closing, token.kind.isClosing = true := by
    rintro _ ⟨⟩
    exact closes
  tracked_enclosed hkind opens (some closing) hcloses (.of_parts fun part hpart => (h part hpart).1)
    fun part hpart _ => (h part hpart).2

/-- The brackets of arguments are tracked if those of each argument are. -/
theorem tracked_argList {closing : Token} (isOpening : opening.kind = .openParen)
    (commas : CommasOnly inside)
    (onItems : ∀ part ∈ inside, part.kind ≠ .punctuation → l.Tracked part)
    (isClosing : closing.kind = .closeParen) : l.Tracked (group .argList
      (ofToken .punctuation opening :: inside ++ [ofToken .punctuation closing])) := by
  have hopens : opening.kind.closing? = some .closeParen := by rw [isOpening]; rfl
  have hcloses : ∀ token ∈ some closing, token.kind.isClosing = true := by
    rintro _ ⟨⟩
    rw [isClosing]
    rfl
  exact tracked_enclosed rfl hopens (some closing) hcloses (row_of_commas commas) onItems

end Enclosed

/-- The brackets of expressions are tracked. -/
theorem Phrase.IsExpr.tracked (h : phrase.IsExpr) : l.Tracked phrase := by
  induction h with
  | number isKind | name isKind | string isKind | none isKind => exact tracked_word isKind rfl rfl
  | boolean isBoolean =>
    rcases isBoolean with isKind | isKind <;> exact tracked_word isKind rfl rfl
  | @unary operator operand isOperator onOperand ih =>
    have hoperator : l.Tracked (ofToken .operator operator) := by
      rcases isOperator with isKind | isKind <;> exact tracked_word isKind rfl rfl
    apply tracked_of_parts rfl
    simp only [List.forall_mem_cons]
    exact ⟨⟨nofun, hoperator⟩, ⟨onOperand.kind_ne, ih⟩, nofun⟩
  | @binary left operator right power onLeft isOperator onRight ihLeft ihRight =>
    have hoperator : l.Covered (ofToken .operator operator) :=
      covered_ofToken rfl (not_isBracket_of_binary isOperator)
    apply tracked_of_parts rfl
    simp only [List.forall_mem_cons]
    exact ⟨⟨onLeft.kind_ne, ihLeft⟩, ⟨nofun, hoperator.toTracked⟩, ⟨onRight.kind_ne, ihRight⟩,
      nofun⟩
  | conditional onValue isIf onCondition isElse onOtherwise ihValue ihCondition ihOtherwise =>
    apply tracked_of_parts rfl
    simp only [List.forall_mem_cons]
    exact ⟨⟨onValue.kind_ne, ihValue⟩, ⟨nofun, tracked_word isIf rfl rfl⟩,
      ⟨onCondition.kind_ne, ihCondition⟩, ⟨nofun, tracked_word isElse rfl rfl⟩,
      ⟨onOtherwise.kind_ne, ihOtherwise⟩, nofun⟩
  | @parenthesized opening inside closing isOpening onInside isClosing ih =>
    have hopens : opening.kind.closing? = some .closeParen := by rw [isOpening]; rfl
    have hcloses : ∀ token ∈ closing, token.kind.isClosing = true := fun token htoken => by
      rw [isClosing token htoken]
      rfl
    have hinside : Row false [inside] := .part onInside.kind_ne .nil
    exact tracked_enclosed rfl hopens closing hcloses hinside
      (List.forall_mem_singleton.mpr fun _ => ih)
  | @emptyList opening closing isOpening isClosing =>
    have hopens : opening.kind.closing? = some .closeBracket := by rw [isOpening]; rfl
    have hcloses : closing.kind.isClosing = true := by rw [isClosing]; rfl
    have hinside : ∀ part ∈ [], part.kind ≠ .punctuation ∧ l.Tracked part := nofun
    exact tracked_enclosed_parts rfl hopens hcloses hinside
  | @list opening first more closing isOpening onFirst commas onMore isClosing ihFirst ihMore =>
    have hopens : opening.kind.closing? = some .closeBracket := by rw [isOpening]; rfl
    have hcloses : ∀ token ∈ closing, token.kind.isClosing = true := fun token htoken => by
      rw [isClosing token htoken]
      rfl
    have hinside : Row false (first :: more) := .part onFirst.kind_ne (row_of_commas commas)
    exact tracked_enclosed rfl hopens closing hcloses hinside
      (List.forall_mem_cons.mpr ⟨fun _ => ihFirst, ihMore⟩)
  | @comprehension kind opening result forWord item inWord iterable closing isOpening onResult isFor
      isItem isIn onIterable isClosing ihResult ihIterable =>
    obtain ⟨hleaf, ending, hopens⟩ := of_comprehensionOpening isOpening
    have hinside : ∀ part ∈ [result, ofToken .keyword forWord, ofToken .variableName item,
        ofToken .keyword inWord, iterable], part.kind ≠ .punctuation ∧ l.Tracked part := by
      simp only [List.forall_mem_cons]
      exact ⟨⟨onResult.kind_ne, ihResult⟩, ⟨nofun, tracked_word isFor rfl rfl⟩,
        ⟨nofun, tracked_word isItem rfl rfl⟩, ⟨nofun, tracked_word isIn rfl rfl⟩,
        ⟨onIterable.kind_ne, ihIterable⟩, nofun⟩
    exact tracked_enclosed_parts hleaf hopens isClosing hinside
  | @filtered kind opening result forWord item inWord iterable ifWord filter closing isOpening
      onResult isFor isItem isIn onIterable isIf onFilter isClosing ihResult ihIterable ihFilter =>
    obtain ⟨hleaf, ending, hopens⟩ := of_comprehensionOpening isOpening
    have hinside : ∀ part ∈ [result, ofToken .keyword forWord, ofToken .variableName item,
        ofToken .keyword inWord, iterable, ofToken .keyword ifWord, filter],
          part.kind ≠ .punctuation ∧ l.Tracked part := by
      simp only [List.forall_mem_cons]
      exact ⟨⟨onResult.kind_ne, ihResult⟩, ⟨nofun, tracked_word isFor rfl rfl⟩,
        ⟨nofun, tracked_word isItem rfl rfl⟩, ⟨nofun, tracked_word isIn rfl rfl⟩,
        ⟨onIterable.kind_ne, ihIterable⟩, ⟨nofun, tracked_word isIf rfl rfl⟩,
        ⟨onFilter.kind_ne, ihFilter⟩, nofun⟩
    exact tracked_enclosed_parts hleaf hopens isClosing hinside
  | call onCallee isOpening commas onItems isClosing ihCallee ihItems =>
    apply tracked_of_parts rfl
    simp only [List.forall_mem_cons]
    exact ⟨⟨onCallee.kind_ne, ihCallee⟩,
      ⟨nofun, tracked_argList isOpening commas ihItems isClosing⟩, nofun⟩
  | @property object dot name onObject isDot isName ih =>
    have hrow : Row true [object, ofToken .punctuation dot, ofToken .propertyName name] :=
      .part onObject.kind_ne (.mark (by rw [isDot]; rfl) (.part nofun .nil))
    apply tracked_group rfl hrow
    simp only [List.forall_mem_cons]
    exact ⟨fun _ => ih, of_mark, fun _ => tracked_word isName rfl rfl, nofun⟩
  | @index object opening inside closing onObject isOpening marks onInside isClosing ih ihInside =>
    have hinside : Row true inside := row_of_items marks fun kind hkind => by
      rcases hkind with rfl | rfl <;> rfl
    have hrow : Row true (object :: ofToken .punctuation opening :: inside ++
        [ofToken .punctuation closing]) :=
      .part onObject.kind_ne (.wrap (by rw [isOpening]; rfl) (by rw [isClosing]; rfl)
        (fun _ => isClosing) hinside .nil)
    apply tracked_group rfl hrow
    simp only [List.cons_append, List.forall_mem_cons, List.forall_mem_append]
    exact ⟨fun _ => ih, of_mark, ihInside, of_mark, nofun⟩

/-- Arguments are tracked. -/
theorem Phrase.IsArgList.tracked (h : phrase.IsArgList) : l.Tracked phrase := by
  cases h with
  | intro isOpening commas onItems isClosing =>
    exact tracked_argList isOpening commas
      (fun part hpart hkind => (onItems part hpart hkind).tracked) isClosing

end Expressions

end Offside
