import Offside.Proofs.Lowering.LowersExpressions

/-!
# Statements as they are read

A walk over a phrase that is accepted as a statement gives the statement that the phrase lowers
to, and a walk over a block gives the statements in it.

Main results:

- Theorem `stmt_yields`: the walk over a statement.
-/

namespace Offside
namespace Lowering

open Walk Phrase

variable {l : Lowering} {c d : Cursor} {a owner : Location} {inner : Walk (Stmt Location)}

/-- No statement is a keyword or a mark. -/
theorem isFixedText_of_isStmt {phrase : Phrase} (h : phrase.IsStmt) :
    phrase.node.kind.isFixedText = false := by
  cases h with
  | @word kind _ isWord =>
    change kind.isFixedText = false
    cases kind <;> first | rfl | cases isWord
  | _ => rfl

/-- A block is entered at its colon. -/
theorem openBody_facing {β : Type} {next : Unit → Walk β} {post : β → Cursor → Prop}
    {body : Phrase} (hbody : body.IsBody) (hwrote : l.Wrote body) (hd : d.node = body.node)
    (hnext : ∀ (colon : Token) (statements : List Phrase) (e : Cursor),
      body = group .body (ofToken .punctuation colon :: statements) → colon.kind = .colon →
      (∀ statement ∈ statements, statement.IsStmt) →
      d.Facing (ofToken .punctuation colon :: statements) e → OnSuccess (next ()) e post) :
    OnSuccess (l.openBody owner >>= next) d post := by
  have hopen : OnSuccess (l.openBody owner) d fun _ e =>
      ∃ (colon : Token) (statements : List Phrase),
      body = group .body (ofToken .punctuation colon :: statements) ∧ colon.kind = .colon ∧
      (∀ statement ∈ statements, statement.IsStmt) ∧
      d.Facing (ofToken .punctuation colon :: statements) e := by
    rcases hbody with @⟨colon, statements, isColon, onStatements⟩
    apply isAt_andAlso_facing hd
    · intro _
      cases colon with
      | some colon =>
        have hcolon : l.reads (ofToken .punctuation colon).node ":" = true := by
          have hwritten := wrote_group.mp hwrote _ List.mem_cons_self
          rw [reads_ofToken (wrote_ofToken.mp hwritten) (by rw [isColon colon rfl]; rfl) rfl]
          rfl
        apply firstChild_facing hd
        intro e he
        apply isToken_facing he.node_eq
        rw [hcolon]
        exact .pure ⟨colon, statements, rfl, isColon colon rfl, onStatements, he⟩
      | none =>
        cases statements with
        | nil =>
          have hnone : d.node.children = [] := by rw [hd]; rfl
          exact .bind_runs (runs_firstChild_nil hnone) (.throw trivial)
        | cons first more =>
          apply firstChild_facing hd
          intro e he
          apply isToken_facing he.node_eq
          rw [reads_of_not_fixed (isFixedText_of_isStmt (onStatements first List.mem_cons_self))]
          exact leave_under he.under (.throw trivial)
    · exact fun hkind => absurd rfl hkind
  apply hopen.bind
  rintro _ e ⟨colon, statements, hbody, hcolon, hstatements, he⟩
  exact hnext colon statements e hbody hcolon hstatements he

section Parts

variable (hinner : ∀ phrase : Phrase, phrase.IsStmt → l.Wrote phrase →
  Yields inner (LowersStmt l phrase) phrase)
include hinner

/-- The statements of a block. -/
theorem blockWith_yields {body : Phrase} (hbody : body.IsBody) (hwrote : l.Wrote body) :
    Yields (l.blockWith inner owner) (LowersBody l body) body := by
  intro d hd
  apply openBody_facing hbody hwrote hd
  rintro colon statements e rfl isColon onStatements he
  have hwritten := List.forall_mem_cons.mp (wrote_group.mp hwrote)
  have he' : d.Facing (ofToken .punctuation colon :: (statements ++ [])) e := by
    rwa [List.append_nil]
  apply Meets.bind (collect_facing (fun _ => false)
    (fun part values => ∃ value, values = [value] ∧ LowersStmt l part value) (fun _ => rfl)
    ?_ (by simp) he')
  · rintro _ last ⟨hlast, groups, hgroups, rfl⟩
    obtain ⟨hlength, hpairs⟩ := List.forall₂_iff_zip.mp (forall₂_flatten hgroups)
    exact leave_under hlast (.pure ⟨rfl, .intro isColon hlength hpairs⟩)
  · intro part hpart
    refine ⟨rfl, ?_⟩
    intro f hf
    apply (hinner part (onStatements part hpart) (hwritten.2 part hpart)).bind hf
    intro value hvalue
    exact .pure ⟨rfl, value, rfl, hvalue⟩

/-- What follows the first block of a conditional. -/
theorem ifTail_facing {current : Phrase} {tail : List Phrase} {limit : Nat} (htail : IsIfTail tail)
    (hwrote : ∀ part ∈ tail, l.Wrote part) (h : c.Facing (current :: tail) d) :
    OnSuccess (l.ifTail inner limit owner) d fun stmts last =>
      c.Under last ∧ LowersTail l tail stmts := by
  induction limit generalizing current tail owner d with
  | zero => exact .throw trivial
  | succ limit ih =>
    cases htail with
    | otherwise onOtherwise =>
      cases onOtherwise with
      | nil => exact nextSibling_last h (.pure ⟨h.under, .otherwise .nil⟩)
      | @«else» word body isElse onBody =>
        simp only [List.forall_mem_cons] at hwrote
        obtain ⟨hword, hbody, -⟩ := hwrote
        apply nextSibling_facing h
        intro e he
        apply isToken_facing he.node_eq
        rw [reads_ofToken (wrote_ofToken.mp hword) (by rw [isElse]; rfl) rfl]
        apply step_facing he
        intro f hf
        apply (blockWith_yields hinner onBody hbody f hf.node_eq).mono
        rintro stmts _ ⟨rfl, hstmts⟩
        exact ⟨hf.under, .otherwise (.else isElse hstmts)⟩
    | @elif word condition body tail isElif onCondition onBody onTail =>
      simp only [List.forall_mem_cons] at hwrote
      obtain ⟨hword, hcondition, hbody, hmore⟩ := hwrote
      apply nextSibling_facing h
      intro e he
      apply isToken_facing he.node_eq
      rw [reads_ofToken (wrote_ofToken.mp hword) (by rw [isElif]; rfl) rfl]
      apply isToken_facing he.node_eq
      rw [reads_ofToken (wrote_ofToken.mp hword) (by rw [isElif]; rfl) rfl]
      apply location_bind
      intro a ha
      rw [he.node_eq] at ha
      apply step_facing he
      intro f hf
      apply (expr_yields onCondition hcondition).bind hf.node_eq
      intro test htest
      apply step_facing hf
      intro g hg
      apply (blockWith_yields hinner onBody hbody).bind hg.node_eq
      intro stmts hstmts
      apply (ih onTail hmore hg).bind
      rintro otherwise last ⟨hlast, hotherwise⟩
      exact .pure ⟨hlast, .elif isElif htest hstmts hotherwise ha⟩

/-! ## Statements -/

omit hinner in
/-- A return, with or without a value. -/
theorem returnStatement_yields {word : Token} (value : Option Phrase)
    (isReturn : word.kind = .returnWord) (onValue : ∀ phrase ∈ value, phrase.IsExpr)
    (hwrote : l.Wrote (group .returnStatement (ofToken .keyword word :: value.toList)))
    (ha : l.Locates (group .returnStatement (ofToken .keyword word :: value.toList)) a) :
    Yields (l.returnStatement a)
      (LowersStmt l (group .returnStatement (ofToken .keyword word :: value.toList)))
      (group .returnStatement (ofToken .keyword word :: value.toList)) := by
  intro d hd
  apply enter_facing hd
  intro e he
  cases value with
  | none =>
    apply nextSibling_last he
    refine .bind_runs (.pure _ _) (leave_under he.under ?_)
    exact .pure ⟨rfl, .returnNone isReturn ha⟩
  | some value =>
    apply nextSibling_facing he
    intro f hf
    have hvalue := wrote_group.mp hwrote value (by simp)
    apply (expr_yields (onValue value rfl) hvalue).bind hf.node_eq
    intro e hexpr
    exact leave_under hf.under (.pure ⟨rfl, .return isReturn hexpr ha⟩)

omit hinner in
/-- An assignment without a type. -/
theorem assign_yields {target value : Phrase} {mark : Token} (onTarget : target.IsExpr)
    (isMark : mark.kind = .assignment) (onValue : value.IsExpr)
    (hwrote : l.Wrote (group .assignStatement [target, ofToken .assignOp mark, value]))
    (ha : l.Locates (group .assignStatement [target, ofToken .assignOp mark, value]) a) :
    Yields (l.assignStatement a)
      (LowersStmt l (group .assignStatement [target, ofToken .assignOp mark, value]))
      (group .assignStatement [target, ofToken .assignOp mark, value]) := by
  simp only [wrote_group, List.forall_mem_cons] at hwrote
  obtain ⟨htarget, hmark, hvalue, -⟩ := hwrote
  intro d hd
  apply enter_facing hd
  intro e he
  apply text_facing he.node_eq
  apply (expr_yields onTarget htarget).bind he.node_eq
  intro place hplace
  apply step_facing he
  intro f hf
  apply isAt_facing hf.node_eq
  apply step_facing hf
  intro g hg
  apply (expr_yields onValue hvalue).bind hg.node_eq
  intro e hexpr
  apply leave_under hg.under
  cases place with
  | id b name => exact .pure ⟨rfl, .assign hplace isMark hexpr ha⟩
  | lookup b object field => exact .pure ⟨rfl, .fieldAssign hplace isMark hexpr ha⟩
  | index b object position => exact .pure ⟨rfl, .indexAssign hplace isMark hexpr ha⟩
  | _ => exact .throw trivial

omit hinner in
/-- An assignment with a type is no statement. -/
theorem typedAssign_yields {target type : Phrase} {more : List Phrase} (onTarget : target.IsExpr)
    (onType : type.IsTypeDef) (htarget : l.Wrote target) :
    Yields (l.assignStatement a) (fun _ => False)
      (group .assignStatement (target :: type :: more)) := by
  intro d hd
  apply enter_facing hd
  intro e he
  apply text_facing he.node_eq
  apply (expr_yields onTarget htarget).bind he.node_eq
  intro place hplace
  apply step_facing he
  intro f hf
  cases onType
  exact isAt_facing hf.node_eq (leave_under hf.under (.throw trivial))

/-- A conditional. -/
theorem ifStatement_yields {word : Token} {condition body : Phrase} {tail : List Phrase}
    (isIf : word.kind = .ifWord) (onCondition : condition.IsExpr) (onBody : body.IsBody)
    (onTail : IsIfTail tail)
    (hwrote : l.Wrote (group .ifStatement (ofToken .keyword word :: condition :: body :: tail)))
    (ha : l.Locates (group .ifStatement (ofToken .keyword word :: condition :: body :: tail)) a) :
    Yields (l.ifStatement inner a)
      (LowersStmt l (group .ifStatement (ofToken .keyword word :: condition :: body :: tail)))
      (group .ifStatement (ofToken .keyword word :: condition :: body :: tail)) := by
  simp only [wrote_group, List.forall_mem_cons] at hwrote
  obtain ⟨-, hcondition, hbody, htail⟩ := hwrote
  intro d hd
  apply enter_facing hd
  intro e he
  apply step_facing he
  intro f hf
  apply (expr_yields onCondition hcondition).bind hf.node_eq
  intro test htest
  apply step_facing hf
  intro g hg
  apply (blockWith_yields hinner onBody hbody).bind hg.node_eq
  intro stmts hstmts
  apply (ifTail_facing hinner onTail htail hg).bind
  rintro otherwise last ⟨hlast, hotherwise⟩
  exact leave_under hlast (.pure ⟨rfl, .cond isIf htest hstmts hotherwise ha⟩)

/-- A loop under a condition. -/
theorem whileStatement_yields {word : Token} {condition body : Phrase}
    (isWhile : word.kind = .whileWord) (onCondition : condition.IsExpr) (onBody : body.IsBody)
    (hwrote : l.Wrote (group .whileStatement [ofToken .keyword word, condition, body]))
    (ha : l.Locates (group .whileStatement [ofToken .keyword word, condition, body]) a) :
    Yields (l.whileStatement inner a)
      (LowersStmt l (group .whileStatement [ofToken .keyword word, condition, body]))
      (group .whileStatement [ofToken .keyword word, condition, body]) := by
  simp only [wrote_group, List.forall_mem_cons] at hwrote
  obtain ⟨-, hcondition, hbody, -⟩ := hwrote
  intro d hd
  apply enter_facing hd
  intro e he
  apply step_facing he
  intro f hf
  apply (expr_yields onCondition hcondition).bind hf.node_eq
  intro test htest
  apply step_facing hf
  intro g hg
  apply (blockWith_yields hinner onBody hbody).bind hg.node_eq
  intro stmts hstmts
  exact leave_under hg.under (.pure ⟨rfl, .while isWhile htest hstmts ha⟩)

/-- A loop over the elements of an iterable. -/
theorem forStatement_yields {word item inWord : Token} {iterable body : Phrase}
    {tail : List Phrase} (isFor : word.kind = .forWord) (isItem : item.kind = .identifier)
    (isIn : inWord.kind = .inWord) (onIterable : iterable.IsExpr) (onBody : body.IsBody)
    (onOtherwise : IsElse tail)
    (hwrote : l.Wrote (group .forStatement (ofToken .keyword word :: ofToken .variableName item ::
      ofToken .keyword inWord :: iterable :: body :: tail)))
    (ha : l.Locates (group .forStatement (ofToken .keyword word :: ofToken .variableName item ::
      ofToken .keyword inWord :: iterable :: body :: tail)) a) :
    Yields (l.forStatement inner a)
      (LowersStmt l (group .forStatement (ofToken .keyword word :: ofToken .variableName item ::
        ofToken .keyword inWord :: iterable :: body :: tail)))
      (group .forStatement (ofToken .keyword word :: ofToken .variableName item ::
        ofToken .keyword inWord :: iterable :: body :: tail)) := by
  simp only [wrote_group, List.forall_mem_cons] at hwrote
  obtain ⟨-, hitem, -, hiterable, hbody, htail⟩ := hwrote
  intro d hd
  apply enter_facing hd
  intro e he
  apply step_facing he
  intro f hf
  apply isAt_facing hf.node_eq
  apply text_facing hf.node_eq
  rw [textOf_name isItem hitem]
  apply step_facing hf
  intro g hg
  apply step_facing hg
  intro i hi
  apply (expr_yields onIterable hiterable).bind hi.node_eq
  intro value hvalue
  apply step_facing hi
  intro j hj
  apply (blockWith_yields hinner onBody hbody).bind hj.node_eq
  intro stmts hstmts
  cases onOtherwise with
  | nil =>
    apply stepTo_last hj
    refine .bind_runs (.pure _ _) (leave_under hj.under ?_)
    exact .pure ⟨rfl, .for isFor isItem isIn hvalue hstmts .nil ha⟩
  | @«else» word body isElse onElse =>
    simp only [List.forall_mem_cons] at htail
    obtain ⟨hword, helse, -⟩ := htail
    apply stepTo_facing hj
    intro k hk
    rw [reads_ofToken (wrote_ofToken.mp hword) (by rw [isElse]; rfl) rfl]
    apply step_facing hk
    intro m hm
    apply (blockWith_yields hinner onElse helse).bind hm.node_eq
    intro otherwise hotherwise
    exact leave_under hm.under
      (.pure ⟨rfl, .for isFor isItem isIn hvalue hstmts (.else isElse hotherwise) ha⟩)

/-- A statement, over a walk for the statements inside. -/
theorem stmtWith_yields {phrase : Phrase} (hphrase : phrase.IsStmt) (hwrote : l.Wrote phrase) :
    Yields (l.stmtWith inner) (LowersStmt l phrase) phrase := by
  intro d hd
  apply location_bind
  intro a ha
  rw [hd] at ha
  apply kind_facing hd
  cases hphrase with
  | declaration onTarget onType =>
    exact ((typedAssign_yields onTarget onType (wrote_group.mp hwrote _ List.mem_cons_self)).mono
      fun _ => False.elim) d hd
  | definition onTarget onType =>
    exact ((typedAssign_yields onTarget onType (wrote_group.mp hwrote _ List.mem_cons_self)).mono
      fun _ => False.elim) d hd
  | assign onTarget isMark onValue => exact assign_yields onTarget isMark onValue hwrote ha d hd
  | expr onValue =>
    apply enter_facing hd
    intro e he
    apply (expr_yields onValue (wrote_group.mp hwrote _ List.mem_cons_self)).bind he.node_eq
    intro value hvalue
    exact leave_under he.under (.pure ⟨rfl, .expr hvalue ha⟩)
  | returnNone isReturn => exact returnStatement_yields none isReturn nofun hwrote ha d hd
  | @«return» word value isReturn onValue =>
    exact returnStatement_yields (some value) isReturn (by simpa using onValue) hwrote ha d hd
  | @word kind word isWord =>
    cases kind with
    | passStatement => exact .pure ⟨rfl, .pass (Option.some.inj isWord).symm ha⟩
    | continueStatement => exact .pure ⟨rfl, .continue (Option.some.inj isWord).symm ha⟩
    | breakStatement => exact .pure ⟨rfl, .break (Option.some.inj isWord).symm ha⟩
    | _ => cases isWord
  | cond isIf onCondition onBody onTail =>
    exact ifStatement_yields hinner isIf onCondition onBody onTail hwrote ha d hd
  | «while» isWhile onCondition onBody =>
    exact whileStatement_yields hinner isWhile onCondition onBody hwrote ha d hd
  | «for» isFor isItem isIn onIterable onBody onOtherwise =>
    exact forStatement_yields hinner isFor isItem isIn onIterable onBody onOtherwise hwrote ha d hd
  | «fun» => exact text_facing hd refuse_facing
  | «class» => exact text_facing hd refuse_facing

end Parts

theorem stmtWithin_yields (fuel : Nat) {phrase : Phrase} (hphrase : phrase.IsStmt)
    (hwrote : l.Wrote phrase) : Yields (l.stmtWithin fuel) (LowersStmt l phrase) phrase := by
  induction fuel generalizing phrase with
  | zero => exact fun _ _ => .throw trivial
  | succ fuel ih => exact stmtWith_yields (fun _ => ih) hphrase hwrote

/-- The walk over a statement gives the statement that a phrase lowers to. -/
theorem stmt_yields {phrase : Phrase} (hphrase : phrase.IsStmt) (hwrote : l.Wrote phrase) :
    Yields l.stmt (LowersStmt l phrase) phrase :=
  stmtWithin_yields l.limit hphrase hwrote

end Lowering
end Offside
