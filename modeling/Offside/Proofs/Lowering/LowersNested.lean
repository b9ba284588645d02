import Offside.Proofs.Lowering.LowersPrograms
import Offside.Proofs.Lowering.PassedOver

/-!
# Brackets of parsed programs

What is lowered has nested brackets, but for what is passed over: an expression behind the first one
in the brackets of an index, and what a type variable is made of.  So the brackets of a source that
is parsed are nested and match exactly if those of what is passed over are.

Main results:

- Theorem `Lowers.covered`: the brackets of a phrase that lowers to an expression.
- Theorem `parseProgram_nested`: the brackets of a source that is parsed.
-/

namespace Offside

open Phrase Lowering

variable {l : Lowering} {phrase : Phrase}

/-! ## Rows of items -/

/-- What all phrases have that go with a value, if each of a row does. -/
theorem forall_part_of_zip {α : Type} {P : Phrase → Prop} {parts : List Phrase} {values : List α}
    (hlength : parts.length = values.length)
    (h : ∀ {part value}, (part, value) ∈ parts.zip values → P part) : ∀ part ∈ parts, P part := by
  intro part hpart
  rw [← List.map_fst_zip (Nat.le_of_eq hlength)] at hpart
  rcases List.mem_map.mp hpart with ⟨_, hpair, rfl⟩
  exact h hpair

/-- The items of a row are covered if each of them is that goes with a value. -/
theorem covered_of_zip {α : Type} {items : List Phrase} {values : List α}
    (hlength : (between items).length = values.length)
    (h : ∀ {part value}, (part, value) ∈ (between items).zip values → l.Covered part) :
    ∀ part ∈ items, part.kind ≠ .punctuation → l.Covered part := fun part hpart hkind =>
  forall_part_of_zip hlength h part (List.mem_filter.mpr ⟨hpart, by simpa using hkind⟩)

/-- A phrase that is a strict row of covered phrases is covered. -/
theorem Lowering.covered_row {kind : SyntaxKind} {parts : List Phrase} (hkind : kind.isLeaf = false)
    (hrow : Row true parts) (heach : ∀ part ∈ parts, part.kind ≠ .punctuation → l.Covered part) :
    l.Covered (group kind parts) :=
  covered_group hkind hrow fun part hpart hmark => .inl (heach part hpart hmark)

/-- A phrase that is a row of covered phrases without marks is covered. -/
theorem Lowering.covered_of_parts {kind : SyntaxKind} {parts : List Phrase}
    (hkind : kind.isLeaf = false)
    (h : ∀ part ∈ parts, part.kind ≠ .punctuation ∧ l.Covered part) :
    l.Covered (group kind parts) :=
  covered_row hkind (.of_parts fun part hpart => (h part hpart).1) fun part hpart _ =>
    (h part hpart).2

/-- The brackets around a row are of one kind. -/
theorem row_wrap {opening closing : Token} {inside : List Phrase} {before after : TokenKind}
    (isOpening : opening.kind = before) (isClosing : closing.kind = after)
    (matching : before.closing? = some after) (hinside : Row true inside) :
    Row true (ofToken .punctuation opening :: inside ++ [ofToken .punctuation closing]) := by
  subst isOpening isClosing
  exact .wrap matching (isClosing_of_closing? matching) (fun _ => rfl) hinside .nil

section Enclosed

variable {kind : SyntaxKind} {opening closing : Token} {inside : List Phrase}
  {before after : TokenKind}

/-- A row of covered phrases in brackets of one kind is covered. -/
theorem covered_enclosed (hkind : kind.isLeaf = false) (isOpening : opening.kind = before)
    (isClosing : closing.kind = after) (matching : before.closing? = some after)
    (hinside : Row true inside)
    (heach : ∀ part ∈ inside, part.kind ≠ .punctuation → l.Covered part) : l.Covered
      (group kind (ofToken .punctuation opening :: inside ++ [ofToken .punctuation closing])) := by
  apply covered_row hkind (row_wrap isOpening isClosing matching hinside)
  simp only [List.cons_append, List.forall_mem_cons, List.forall_mem_append]
  exact ⟨of_mark, heach, of_mark, nofun⟩

/-- A row of covered phrases without marks in brackets of one kind is covered. -/
theorem covered_enclosed_parts (hkind : kind.isLeaf = false) (isOpening : opening.kind = before)
    (isClosing : closing.kind = after) (matching : before.closing? = some after)
    (h : ∀ part ∈ inside, part.kind ≠ .punctuation ∧ l.Covered part) : l.Covered
      (group kind (ofToken .punctuation opening :: inside ++ [ofToken .punctuation closing])) :=
  covered_enclosed hkind isOpening isClosing matching
    (.of_parts fun part hpart => (h part hpart).1) fun part hpart _ => (h part hpart).2

end Enclosed

/-! ## Types -/

/-- The brackets of a type are covered. -/
theorem LowersTy.covered {ty : Ty} (h : LowersTy phrase ty) : l.Covered phrase := by
  induction h with
  | name isName => exact covered_word isName rfl rfl
  | none isNone => exact covered_word isNone rfl rfl
  | @list opening element closing ty isOpening onElement isClosing ih =>
    exact covered_enclosed_parts rfl isOpening isClosing rfl
      (List.forall_mem_singleton.mpr ⟨kind_ne_of_lowersTy onElement, ih⟩)
  | @object name opening inside closing tys isName isOpening commas hlength _ isClosing ih =>
    have hrow : Row true (ofToken .variableName name :: (ofToken .punctuation opening :: inside ++
        [ofToken .punctuation closing])) :=
      .part nofun (row_wrap isOpening isClosing rfl (row_of_commas commas))
    apply covered_row rfl hrow
    simp only [List.cons_append, List.forall_mem_cons, List.forall_mem_append]
    exact ⟨fun _ => covered_word isName rfl rfl, of_mark, covered_of_zip hlength ih, of_mark, nofun⟩

/-- The brackets of a type behind a mark are covered. -/
theorem LowersTypeDef.covered {ty : Ty} (h : LowersTypeDef phrase ty) : l.Covered phrase := by
  cases h with
  | @intro marker type ty isMarker onType =>
    have hmarker : marker.kind.isBracket = false := by
      rcases isMarker with isKind | isKind <;> rw [isKind] <;> rfl
    apply covered_row rfl (.mark hmarker (.part (kind_ne_of_lowersTy onType) .nil))
    simp only [List.forall_mem_cons]
    exact ⟨of_mark, fun _ => onType.covered, nofun⟩

/-- A type behind its marker is no punctuation. -/
theorem kind_ne_of_lowersTypeDef {ty : Ty} (h : LowersTypeDef phrase ty) :
    phrase.kind ≠ .punctuation := by
  cases h
  exact nofun

/-! ## Expressions -/

/-- A call of a maker of type variables passes over both its parts. -/
theorem mem_passedOver_call {callee arguments : Phrase} (h : l.makesTypeVar callee = true)
    (hcallee : callee.kind ≠ .punctuation) (harguments : arguments.kind ≠ .punctuation) :
    callee ∈ l.passedOverAmong .callExpression [callee, arguments] ∧
      arguments ∈ l.passedOverAmong .callExpression [callee, arguments] := by
  simp [passedOverAmong, between, h, hcallee, harguments]

/-- An index passes over what stands behind the first expression in its brackets. -/
theorem passedOver_index {object opening closing position : Phrase} {before behind : List Phrase}
    (hbefore : ∀ part ∈ before, part.kind = .punctuation)
    (hposition : position.kind ≠ .punctuation) :
    l.passedOverAmong .memberExpression
        (object :: opening :: (before ++ position :: behind) ++ [closing]) = between behind := by
  have hdrop : (before ++ position :: behind).dropWhile
      (fun part => decide (part.kind = .punctuation)) = position :: behind := by
    rw [List.dropWhile_append_of_pos fun part hpart => decide_eq_true (hbefore part hpart),
      List.dropWhile_cons_of_neg (by simpa using hposition)]
  simp only [passedOverAmong, List.cons_append]
  rw [show before ++ position :: behind ++ [closing] = (before ++ position :: behind) ++ [closing]
    from rfl, List.dropLast_concat, hdrop, List.drop_one, List.tail_cons]

/-- The brackets of a literal are covered. -/
theorem LowersLiteral.covered {value : Literal Location} (h : LowersLiteral l phrase value) :
    l.Covered phrase := by
  cases h with
  | number isNumber => exact covered_word isNumber rfl rfl
  | boolean isBoolean =>
    rcases isBoolean with isKind | isKind <;> exact covered_word isKind rfl rfl
  | none isNone => exact covered_word isNone rfl rfl
  | @typeVar callee arguments a onCallee text onArguments =>
    have hmakes : l.makesTypeVar callee = true := by simp [makesTypeVar, text]
    have harguments : arguments.kind ≠ .punctuation := by
      rw [onArguments.kind_eq]
      exact nofun
    obtain ⟨hcallee, hpassed⟩ := mem_passedOver_call hmakes onCallee.kind_ne harguments
    have hrow : Row true [callee, arguments] :=
      .part onCallee.kind_ne (.part harguments .nil)
    apply covered_group rfl hrow
    simp only [List.forall_mem_cons]
    exact ⟨fun _ => .inr ⟨onCallee.tracked, hcallee⟩, fun _ => .inr ⟨onArguments.tracked, hpassed⟩,
      nofun⟩

/-- Neither is a literal. -/
theorem kind_ne_of_lowersLiteral {value : Literal Location} (h : LowersLiteral l phrase value) :
    phrase.kind ≠ .punctuation := by
  cases h <;> exact nofun

/-- The name that an expression is stands in its phrase. -/
theorem Lowers.mem_words {a : Location} {name : String} (h : Lowers l phrase (.id a name)) :
    ∃ token ∈ phrase.words, token.text = name := by
  generalize he : Expr.id a name = e at h
  induction h with
  | id =>
    cases he
    exact ⟨_, List.mem_singleton_self _, rfl⟩
  | parenthesized _ _ _ ih =>
    rcases ih he with ⟨token, htoken, hname⟩
    exact ⟨token, by simp [htoken], hname⟩
  | call _ _ _ _ _ _ _ sorts =>
    subst he
    cases sorts
  | _ => cases he

/-- The brackets of arguments are covered if those of each argument are. -/
theorem covered_argList {opening closing : Token} {items : List Phrase}
    (isOpening : opening.kind = .openParen) (commas : CommasOnly items)
    (onItems : ∀ part ∈ items, part.kind ≠ .punctuation → l.Covered part)
    (isClosing : closing.kind = .closeParen) : l.Covered (group .argList
      (ofToken .punctuation opening :: items ++ [ofToken .punctuation closing])) :=
  covered_enclosed rfl isOpening isClosing rfl (row_of_commas commas) onItems

/-- The brackets of an expression are covered. -/
theorem Lowers.covered {e : Expr Location} (h : Lowers l phrase e) : l.Covered phrase := by
  induction h with
  | literal onLiteral => exact onLiteral.covered
  | id isName => exact covered_word isName rfl rfl
  | @uniOp operator operand op e a onOperand isOperator _ _ ih =>
    have hoperator : l.Covered (ofToken .operator operator) := by
      rcases isOperator with isKind | isKind <;> exact covered_word isKind rfl rfl
    apply covered_of_parts rfl
    simp only [List.forall_mem_cons]
    exact ⟨⟨nofun, hoperator⟩, ⟨kind_ne_of_lowers onOperand, ih⟩, nofun⟩
  | @binOp left operator right power op e e' a onLeft isOperator _ onRight _ ihLeft ihRight =>
    have hoperator : l.Covered (ofToken .operator operator) :=
      covered_ofToken rfl (not_isBracket_of_binary isOperator)
    apply covered_of_parts rfl
    simp only [List.forall_mem_cons]
    exact ⟨⟨kind_ne_of_lowers onLeft, ihLeft⟩, ⟨nofun, hoperator⟩,
      ⟨kind_ne_of_lowers onRight, ihRight⟩, nofun⟩
  | ternary onValue isIf onCondition isElse onOtherwise _ ihValue ihCondition ihOtherwise =>
    apply covered_of_parts rfl
    simp only [List.forall_mem_cons]
    exact ⟨⟨kind_ne_of_lowers onValue, ihValue⟩, ⟨nofun, covered_word isIf rfl rfl⟩,
      ⟨kind_ne_of_lowers onCondition, ihCondition⟩, ⟨nofun, covered_word isElse rfl rfl⟩,
      ⟨kind_ne_of_lowers onOtherwise, ihOtherwise⟩, nofun⟩
  | @parenthesized opening inside closing e isOpening onInside isClosing ih =>
    exact covered_enclosed_parts rfl isOpening isClosing rfl
      (List.forall_mem_singleton.mpr ⟨kind_ne_of_lowers onInside, ih⟩)
  | listLiteral isOpening commas hlength _ isClosing _ ih =>
    exact covered_enclosed rfl isOpening isClosing rfl (row_of_commas commas)
      (covered_of_zip hlength ih)
  | @comprehension kind opening result forWord item inWord iterable closing built e e' a isOpening
      _ matching onResult isFor isItem isIn onIterable _ ihResult ihIterable =>
    have hinside : ∀ part ∈ [result, ofToken .keyword forWord, ofToken .variableName item,
        ofToken .keyword inWord, iterable], part.kind ≠ .punctuation ∧ l.Covered part := by
      simp only [List.forall_mem_cons]
      exact ⟨⟨kind_ne_of_lowers onResult, ihResult⟩, ⟨nofun, covered_word isFor rfl rfl⟩,
        ⟨nofun, covered_word isItem rfl rfl⟩, ⟨nofun, covered_word isIn rfl rfl⟩,
        ⟨kind_ne_of_lowers onIterable, ihIterable⟩, nofun⟩
    exact covered_enclosed_parts (isLeaf_of_comprehensionOpening isOpening) rfl rfl matching
      hinside
  | @filtered kind opening result forWord item inWord iterable ifWord filter closing built e e' e''
      a isOpening _ matching onResult isFor isItem isIn onIterable isIf onFilter _ ihResult ihIterable
      ihFilter =>
    have hinside : ∀ part ∈ [result, ofToken .keyword forWord, ofToken .variableName item,
        ofToken .keyword inWord, iterable, ofToken .keyword ifWord, filter],
          part.kind ≠ .punctuation ∧ l.Covered part := by
      simp only [List.forall_mem_cons]
      exact ⟨⟨kind_ne_of_lowers onResult, ihResult⟩, ⟨nofun, covered_word isFor rfl rfl⟩,
        ⟨nofun, covered_word isItem rfl rfl⟩, ⟨nofun, covered_word isIn rfl rfl⟩,
        ⟨kind_ne_of_lowers onIterable, ihIterable⟩, ⟨nofun, covered_word isIf rfl rfl⟩,
        ⟨kind_ne_of_lowers onFilter, ihFilter⟩, nofun⟩
    exact covered_enclosed_parts (isLeaf_of_comprehensionOpening isOpening) rfl rfl matching
      hinside
  | @lookup object dot name e a onObject isDot isName _ ih =>
    have hrow : Row true [object, ofToken .punctuation dot, ofToken .propertyName name] :=
      .part (kind_ne_of_lowers onObject) (.mark (by rw [isDot]; rfl) (.part nofun .nil))
    apply covered_row rfl hrow
    simp only [List.forall_mem_cons]
    exact ⟨fun _ => ih, of_mark, fun _ => covered_word isName rfl rfl, nofun⟩
  | @index object opening before position behind closing e e' a onObject isOpening commas onPosition
      marks others isClosing _ ihObject ihPosition =>
    have hposition := kind_ne_of_lowers onPosition
    have hpassed := @passedOver_index l object (ofToken .punctuation opening)
      (ofToken .punctuation closing) position before behind
      (fun part hpart => (commas part hpart).kind_eq) hposition
    have hinside : Row true (before ++ position :: behind) := by
      apply Row.of_marks
      simp only [List.forall_mem_append, List.forall_mem_cons]
      refine ⟨fun part hpart _ => ?_, fun hmark => absurd hmark hposition,
        fun part hpart hmark => ?_⟩
      · rcases commas part hpart with ⟨token, hkind, rfl⟩
        exact ⟨token, by rw [hkind]; rfl, rfl⟩
      · rcases marks part hpart hmark with ⟨token, hkind | hkind, rfl⟩ <;>
          exact ⟨token, by rw [hkind]; rfl, rfl⟩
    have hrow : Row true (object :: ofToken .punctuation opening ::
        (before ++ position :: behind) ++ [ofToken .punctuation closing]) :=
      .part (kind_ne_of_lowers onObject) (row_wrap isOpening isClosing rfl hinside)
    apply covered_group rfl hrow
    rw [hpassed]
    simp only [List.cons_append, List.forall_mem_cons, List.forall_mem_append]
    refine ⟨fun _ => .inl ihObject, of_mark, ⟨fun part hpart hmark => ?_, fun _ => .inl ihPosition,
      fun part hpart hmark => ?_⟩, of_mark, nofun⟩
    · exact absurd (commas part hpart).kind_eq hmark
    · exact .inr ⟨(others part hpart hmark).tracked,
        List.mem_filter.mpr ⟨hpart, by simpa using hmark⟩⟩
  | genericCall onCallee isMember isOpening commas hlength _ isClosing _ ih =>
    apply covered_of_parts rfl
    simp only [List.forall_mem_cons]
    exact ⟨⟨kind_ne_of_lowersTy onCallee, onCallee.covered⟩,
      ⟨nofun, covered_argList isOpening commas (covered_of_zip hlength ih) isClosing⟩, nofun⟩
  | call onCallee isOpening commas hlength _ isClosing _ _ ihCallee ih =>
    apply covered_of_parts rfl
    simp only [List.forall_mem_cons]
    exact ⟨⟨kind_ne_of_lowers onCallee, ihCallee⟩,
      ⟨nofun, covered_argList isOpening commas (covered_of_zip hlength ih) isClosing⟩, nofun⟩
  | @typeVar callee arguments a b onCallee onArguments _ ih =>
    have hmakes : l.makesTypeVar callee = true := by
      rcases onCallee.mem_words with ⟨token, htoken, hname⟩
      rw [makesTypeVar, Bool.or_eq_true, List.any_eq_true]
      exact .inr ⟨token, htoken, by simpa using hname⟩
    have harguments : arguments.kind ≠ .punctuation := by
      rw [onArguments.kind_eq]
      exact nofun
    obtain ⟨-, hpassed⟩ := mem_passedOver_call hmakes (kind_ne_of_lowers onCallee) harguments
    have hrow : Row true [callee, arguments] :=
      .part (kind_ne_of_lowers onCallee) (.part harguments .nil)
    apply covered_group rfl hrow
    simp only [List.forall_mem_cons]
    exact ⟨fun _ => .inl ih, fun _ => .inr ⟨onArguments.tracked, hpassed⟩, nofun⟩

/-! ## Statements -/

/-- No statement is a mark. -/
theorem LowersStmt.kind_ne {s : Stmt Location} (h : LowersStmt l phrase s) :
    phrase.kind ≠ .punctuation := by
  cases h <;> exact nofun

/-- The brackets of a block are covered if those of its statements are. -/
theorem covered_body {colon : Token} {parts : List Phrase} (isColon : colon.kind = .colon)
    (hparts : ∀ part ∈ parts, part.kind ≠ .punctuation ∧ l.Covered part) :
    l.Covered (group .body (ofToken .punctuation colon :: parts)) := by
  have hrow : Row true (ofToken .punctuation colon :: parts) :=
    .mark (by rw [isColon]; rfl) (.of_parts fun part hpart => (hparts part hpart).1)
  apply covered_row rfl hrow
  rw [List.forall_mem_cons]
  exact ⟨of_mark, fun part hpart _ => (hparts part hpart).2⟩

mutual

/-- The brackets of a statement are covered. -/
theorem LowersStmt.covered {phrase : Phrase} {s : Stmt Location} (h : LowersStmt l phrase s) :
    l.Covered phrase := by
  match h with
  | .assign onTarget isMark onValue _ | .fieldAssign onTarget isMark onValue _
  | .indexAssign onTarget isMark onValue _ =>
    apply covered_of_parts rfl
    simp only [List.forall_mem_cons]
    exact ⟨⟨kind_ne_of_lowers onTarget, onTarget.covered⟩, ⟨nofun, covered_word isMark rfl rfl⟩,
      ⟨kind_ne_of_lowers onValue, onValue.covered⟩, nofun⟩
  | .expr onValue _ =>
    apply covered_of_parts rfl
    simp only [List.forall_mem_cons]
    exact ⟨⟨kind_ne_of_lowers onValue, onValue.covered⟩, nofun⟩
  | .returnNone isWord _ | .pass isWord _ | .continue isWord _ | .break isWord _ =>
    apply covered_of_parts rfl
    simp only [List.forall_mem_cons]
    exact ⟨⟨nofun, covered_word isWord rfl rfl⟩, nofun⟩
  | .return isWord onValue _ =>
    apply covered_of_parts rfl
    simp only [List.forall_mem_cons]
    exact ⟨⟨nofun, covered_word isWord rfl rfl⟩, ⟨kind_ne_of_lowers onValue, onValue.covered⟩,
      nofun⟩
  | .cond isIf onCondition onBody onTail _ =>
    apply covered_of_parts rfl
    simp only [List.forall_mem_cons]
    exact ⟨⟨nofun, covered_word isIf rfl rfl⟩,
      ⟨kind_ne_of_lowers onCondition, onCondition.covered⟩, onBody.covered, onTail.covered⟩
  | .while isWhile onCondition onBody _ =>
    apply covered_of_parts rfl
    simp only [List.forall_mem_cons]
    exact ⟨⟨nofun, covered_word isWhile rfl rfl⟩,
      ⟨kind_ne_of_lowers onCondition, onCondition.covered⟩, onBody.covered, nofun⟩
  | .for isFor isItem isIn onIterable onBody onElse _ =>
    apply covered_of_parts rfl
    simp only [List.forall_mem_cons]
    exact ⟨⟨nofun, covered_word isFor rfl rfl⟩, ⟨nofun, covered_word isItem rfl rfl⟩,
      ⟨nofun, covered_word isIn rfl rfl⟩,
      ⟨kind_ne_of_lowers onIterable, onIterable.covered⟩, onBody.covered, onElse.covered⟩

/-- The brackets of a block are covered. -/
theorem LowersBody.covered {phrase : Phrase} {block : List (Stmt Location)}
    (h : LowersBody l phrase block) : phrase.kind ≠ .punctuation ∧ l.Covered phrase := by
  match h with
  | .intro isColon hlength onParts =>
    have heach := forall_part_of_zip hlength fun hpair =>
      And.intro (onParts hpair).kind_ne (onParts hpair).covered
    exact ⟨nofun, covered_body isColon heach⟩

/-- So are those of a last branch. -/
theorem LowersElse.covered {parts : List Phrase} {block : List (Stmt Location)}
    (h : LowersElse l parts block) :
    ∀ part ∈ parts, part.kind ≠ .punctuation ∧ l.Covered part := by
  match h with
  | .nil => exact nofun
  | .else isElse onBody =>
    simp only [List.forall_mem_cons]
    exact ⟨⟨nofun, covered_word isElse rfl rfl⟩, onBody.covered, nofun⟩

/-- So are those of the branches behind the first one. -/
theorem LowersTail.covered {parts : List Phrase} {block : List (Stmt Location)}
    (h : LowersTail l parts block) :
    ∀ part ∈ parts, part.kind ≠ .punctuation ∧ l.Covered part := by
  match h with
  | .otherwise onElse => exact onElse.covered
  | .elif isElif onCondition onBody onTail _ =>
    simp only [List.forall_mem_cons]
    exact ⟨⟨nofun, covered_word isElif rfl rfl⟩,
      ⟨kind_ne_of_lowers onCondition, onCondition.covered⟩, onBody.covered, onTail.covered⟩

end

/-! ## Declarations -/

/-- What all phrases have that go with a value in a relation. -/
theorem forall_part_of_forall₂ {α : Type} {R : Phrase → α → Prop} {P : Phrase → Prop}
    {parts : List Phrase} {values : List α} (h : List.Forall₂ R parts values)
    (hone : ∀ part value, R part value → P part) : ∀ part ∈ parts, P part :=
  forall_part_of_zip h.length_eq fun hpair => hone _ _ ((List.forall₂_iff_zip.mp h).2 hpair)

/-- The brackets of the declaration of a variable are covered. -/
theorem LowersVarInit.covered {init : VarInit Location} (h : LowersVarInit l phrase init) :
    phrase.kind ≠ .punctuation ∧ l.Covered phrase := by
  rcases h with @⟨name, type, mark, value, ty, literal, a, isName, onType, isMark, onValue, _⟩
  refine ⟨nofun, covered_of_parts rfl ?_⟩
  simp only [List.forall_mem_cons]
  exact ⟨⟨nofun, covered_word isName rfl rfl⟩, ⟨kind_ne_of_lowersTypeDef onType, onType.covered⟩,
    ⟨nofun, covered_word isMark rfl rfl⟩, ⟨kind_ne_of_lowersLiteral onValue, onValue.covered⟩,
    nofun⟩

/-- The brackets of parameters are covered. -/
theorem LowersParameters.covered {parts : List Phrase} {parameters : List Parameter}
    (h : LowersParameters parts parameters) : Row true parts ∧
      ∀ part ∈ parts, part.kind ≠ .punctuation → l.Covered part := by
  induction h with
  | nil => exact ⟨.nil, nofun⟩
  | @cons name type ty comma more parameters isName onType isComma _ ih =>
    obtain ⟨hrow, heach⟩ := ih
    have hmore : Row true (optionalMark comma ++ more) ∧
        ∀ part ∈ optionalMark comma ++ more, part.kind ≠ .punctuation → l.Covered part := by
      cases comma with
      | none => exact ⟨hrow, heach⟩
      | some comma =>
        exact ⟨.mark (by rw [isComma comma rfl]; rfl) hrow,
          List.forall_mem_cons.mpr ⟨of_mark, heach⟩⟩
    refine ⟨.part nofun (.part (kind_ne_of_lowersTypeDef onType) hmore.1), ?_⟩
    simp only [List.forall_mem_cons]
    exact ⟨fun _ => covered_word isName rfl rfl, fun _ => onType.covered, hmore.2⟩

/-- The brackets of parameters are covered. -/
theorem LowersParamList.covered {parameters : List Parameter}
    (h : LowersParamList phrase parameters) : phrase.kind ≠ .punctuation ∧ l.Covered phrase := by
  rcases h with @⟨opening, parts, closing, parameters, isOpening, onParts, isClosing⟩
  obtain ⟨hrow, heach⟩ := onParts.covered (l := l)
  exact ⟨nofun, covered_enclosed rfl isOpening isClosing rfl hrow heach⟩

/-- So are those of a return type. -/
theorem LowersResult.covered {result : Option Phrase} {ty : Ty} (h : LowersResult result ty) :
    ∀ part ∈ Option.toList result, part.kind ≠ .punctuation ∧ l.Covered part := by
  cases h with
  | none => exact nofun
  | some onType =>
    simp only [Option.toList_some, List.forall_mem_cons]
    exact ⟨⟨kind_ne_of_lowersTypeDef onType, onType.covered⟩, nofun⟩

/-- The brackets of a function are covered. -/
theorem LowersFunDef.covered {fn : FunDef Location} (h : LowersFunDef l phrase fn) :
    phrase.kind ≠ .punctuation ∧ l.Covered phrase := by
  rcases h with @⟨word, name, list, result, body, parameters, ret, inits, stmts, a, isDef, isName,
    onList, onResult, onBody, _⟩
  rcases onBody with @⟨colon, before, behind, inits, stmts, isColon, onInits, onStmts⟩
  have hbody := covered_body isColon (List.forall_mem_append.mpr
    ⟨forall_part_of_forall₂ onInits fun _ _ => LowersVarInit.covered,
      forall_part_of_forall₂ onStmts fun _ _ hstmt => ⟨hstmt.kind_ne, hstmt.covered⟩⟩)
  refine ⟨nofun, covered_of_parts rfl ?_⟩
  simp only [List.forall_mem_cons, List.forall_mem_append]
  exact ⟨⟨nofun, covered_word isDef rfl rfl⟩, ⟨nofun, covered_word isName rfl rfl⟩, onList.covered,
    onResult.covered, ⟨nofun, hbody⟩, nofun⟩

/-- The brackets of a base class are covered. -/
theorem LowersBase.covered {names : List String} (h : LowersBase phrase names) :
    l.Covered phrase := by
  cases h with
  | object isName => exact covered_word isName rfl rfl
  | @generic name opening inside closing names isName _ isOpening commas onInside isClosing =>
    have hinside : ∀ part ∈ inside, part.kind ≠ .punctuation → l.Covered part :=
      covered_of_zip onInside.length_eq fun hpair => by
        rcases (List.forall₂_iff_zip.mp onInside).2 hpair with ⟨token, isName, rfl, -⟩
        exact covered_word isName rfl rfl
    have hrow : Row true (ofToken .variableName name :: (ofToken .punctuation opening :: inside ++
        [ofToken .punctuation closing])) :=
      .part nofun (row_wrap isOpening isClosing rfl (row_of_commas commas))
    apply covered_row rfl hrow
    simp only [List.cons_append, List.forall_mem_cons, List.forall_mem_append]
    exact ⟨fun _ => covered_word isName rfl rfl, of_mark, hinside, of_mark, nofun⟩

/-- So are those of base classes. -/
theorem LowersBases.covered {bases : Option Phrase} {names : List String}
    (h : LowersBases bases names) :
    ∀ part ∈ Option.toList bases, part.kind ≠ .punctuation ∧ l.Covered part := by
  cases h with
  | none => exact nofun
  | @some opening items closing groups isOpening commas onItems isClosing =>
    have hitems : ∀ part ∈ items, part.kind ≠ .punctuation → l.Covered part :=
      covered_of_zip onItems.length_eq fun hpair =>
        ((List.forall₂_iff_zip.mp onItems).2 hpair).covered
    simp only [Option.toList_some, List.forall_mem_cons]
    exact ⟨⟨nofun, covered_argList isOpening commas hitems isClosing⟩, nofun⟩

/-- So are those of a member of a class. -/
theorem LowersMember.covered {members : List Lowering.ClassMember}
    (h : LowersMember l phrase members) : phrase.kind ≠ .punctuation ∧ l.Covered phrase := by
  cases h with
  | field onInit => exact onInit.covered
  | method onFun => exact onFun.covered
  | pass isPass =>
    refine ⟨nofun, covered_of_parts rfl ?_⟩
    simp only [List.forall_mem_cons]
    exact ⟨⟨nofun, covered_word isPass rfl rfl⟩, nofun⟩

/-- The brackets of a class are covered. -/
theorem LowersClassDef.covered {cls : ClassDef Location} (h : LowersClassDef l phrase cls) :
    phrase.kind ≠ .punctuation ∧ l.Covered phrase := by
  rcases h with @⟨word, name, bases, colon, parts, generics, groups, a, isClass, isName, onBases,
    isColon, onParts, _⟩
  have hbody := covered_body isColon
    (forall_part_of_forall₂ onParts fun _ _ => LowersMember.covered)
  refine ⟨nofun, covered_of_parts rfl ?_⟩
  simp only [List.forall_mem_cons, List.forall_mem_append]
  exact ⟨⟨nofun, covered_word isClass rfl rfl⟩, ⟨nofun, covered_word isName rfl rfl⟩,
    onBases.covered, ⟨nofun, hbody⟩, nofun⟩

/-- The brackets of a declaration are covered. -/
theorem LowersDeclaration.covered {declaration : Lowering.Declaration}
    (h : LowersDeclaration l phrase declaration) :
    phrase.kind ≠ .punctuation ∧ l.Covered phrase := by
  cases h with
  | init onInit => exact onInit.covered
  | «fun» onFun => exact onFun.covered
  | cls onClass => exact onClass.covered

/-! ## Programs -/

/-- The brackets of a program are nested exactly if those of anything in it that may be passed over
are. -/
theorem LowersProgram.nested_iff {program : Program Location} (h : LowersProgram l phrase program) :
    Nested phrase.words ↔ l.PassesNested phrase := by
  rcases h with @⟨before, behind, declarations, stmts, a, isScript, hchildren, hwords, hexact,
    onBefore, onBehind⟩
  have hparts : phrase.parts = before ++ behind := by
    rw [parts, hchildren, hwords, dealOut_map_node hexact]
  have heach : ∀ part ∈ before ++ behind, part.kind ≠ .punctuation ∧ l.Covered part :=
    List.forall_mem_append.mpr
      ⟨forall_part_of_forall₂ onBefore fun _ _ => LowersDeclaration.covered,
        forall_part_of_forall₂ onBehind fun _ _ hstmt => ⟨hstmt.kind_ne, hstmt.covered⟩⟩
  have hrow : Row true (before ++ behind) := .of_parts fun part hpart => (heach part hpart).1
  obtain ⟨-, hdown, hup⟩ := hrow.brackets fun part hpart _ => (heach part hpart).2.grounded
  have hself : l.passedOver phrase = [] := by
    unfold passedOver passedOverAmong
    rw [isScript]
    rfl
  have hpasses : l.PassesNested phrase ↔ ∀ part ∈ before ++ behind, l.PassesNested part := by
    simp only [PassesNested, all_eq phrase, hparts, List.forall_mem_cons, hself, List.mem_flatMap]
    constructor
    · intro h part hpart inner hinner
      exact h.2 inner ⟨part, hpart, hinner⟩
    · intro h
      refine ⟨List.forall_mem_nil _, ?_⟩
      rintro inner ⟨part, hpart, hinner⟩
      exact h part hpart inner hinner
  rw [hwords, hpasses]
  constructor
  · intro hnested part hpart
    obtain ⟨hmark, hcovered⟩ := heach part hpart
    exact hcovered.passesNested (hdown hnested part hpart hmark)
  · intro hall
    exact hup rfl fun part hpart _ => (heach part hpart).2.nested (hall part hpart)

/-- The brackets of a source are those of its words. -/
theorem nested_iff_wordsOf {source : Source} {tokens : List Token}
    (h : tokenize source = .ok tokens) : Nested tokens ↔ Nested (wordsOf tokens) := by
  rw [wordsOf_eq_filter h, Nested, Nested, readBrackets_filter]
  intro token _ hdropped
  rw [Bool.and_eq_false_iff] at hdropped
  cases hkind : token.kind <;> rw [hkind] at hdropped <;>
    first | rfl | (rcases hdropped with hdropped | hdropped <;> cases hdropped)

/-- The brackets of a source that is parsed are nested and match, exactly if those of what may be
passed over in its tree are nested and match: of an expression that is not the first one in the
brackets of an index, and of a call of `TypeVar`. -/
theorem parseProgram_nested {source : Source} {program : Program Location}
    (h : parseProgram source = .ok program) :
    ∃ tokens tree, tokenize source = .ok tokens ∧ parse tokens source = .ok tree ∧
      (Nested tokens ↔ (Lowering.ofTree source tree).PassesNested ⟨tree, wordsOf tokens⟩) := by
  rcases parseProgram_lowers h with ⟨tokens, tree, htokens, htree, -, hprogram⟩
  exact ⟨tokens, tree, htokens, htree, (nested_iff_wordsOf htokens).trans hprogram.nested_iff⟩

/-- An index with a second expression in parentheses. -/
theorem parseProgram_nested_slice : ∃ program tokens tree,
    parseProgram "a[0:(1)]".toList = .ok program ∧ tokenize "a[0:(1)]".toList = .ok tokens ∧
      parse tokens "a[0:(1)]".toList = .ok tree ∧ Nested tokens ∧
      (Lowering.ofTree "a[0:(1)]".toList tree).PassesNested ⟨tree, wordsOf tokens⟩ := by
  have hparse : (parseProgram "a[0:(1)]".toList).isOk = true := by decide +kernel
  have hnested : ((tokenize "a[0:(1)]".toList).toOption.map fun tokens =>
      decide (Nested tokens)) = some true := by decide +kernel
  cases hprogram : parseProgram "a[0:(1)]".toList with
  | error failure =>
    rw [hprogram] at hparse
    cases hparse
  | ok program =>
    obtain ⟨tokens, tree, htokens, htree, hiff⟩ := parseProgram_nested hprogram
    rw [htokens] at hnested
    have hall : Nested tokens := of_decide_eq_true (Option.some.inj hnested)
    exact ⟨program, tokens, tree, rfl, htokens, htree, hall, hiff.mp hall⟩

/-- An index with a second expression whose parenthesis is not closed is parsed. -/
theorem parseProgram_nested_openSlice : (∃ program, parseProgram "a[0:(1]".toList = .ok program) ∧
    ∃ tokens, tokenize "a[0:(1]".toList = .ok tokens ∧ ¬ Nested tokens := by
  have hparse : (parseProgram "a[0:(1]".toList).isOk = true := by decide +kernel
  have hnested : ((tokenize "a[0:(1]".toList).toOption.map fun tokens =>
      decide (Nested tokens)) = some false := by decide +kernel
  constructor
  · cases hprogram : parseProgram "a[0:(1]".toList with
    | error failure =>
      rw [hprogram] at hparse
      cases hparse
    | ok program => exact ⟨program, rfl⟩
  · rcases Option.map_eq_some_iff.mp hnested with ⟨tokens, htokens, hopen⟩
    cases hrun : tokenize "a[0:(1]".toList with
    | error failure =>
      rw [hrun] at htokens
      cases htokens
    | ok other =>
      rw [hrun] at htokens
      cases htokens
      exact ⟨tokens, rfl, of_decide_eq_false hopen⟩

end Offside
