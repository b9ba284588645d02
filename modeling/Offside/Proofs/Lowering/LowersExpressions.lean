import Offside.Proofs.Lowering.LowersTypes

/-!
# Expressions as they are read

A walk over a phrase that is accepted as an expression gives the expression that the phrase
lowers to.  There is one lemma for each form of phrase, over any walk for the expressions inside.

Main results:

- Theorem `expr_yields`: the walk over an expression.
-/

namespace Offside
namespace Lowering

open Walk Phrase

variable {l : Lowering} {c d : Cursor} {a : Location} {inner : Walk (Expr Location)}

/-- A walk over a phrase gives the expression that the phrase lowers to. -/
abbrev YieldsExpr (l : Lowering) (walk : Walk (Expr Location)) (phrase : Phrase) : Prop :=
  Yields walk (Lowers l phrase) phrase

/-- A walk for the expressions inside gives what they lower to. -/
def YieldsInside (l : Lowering) (inner : Walk (Expr Location)) : Prop :=
  ∀ phrase : Phrase, phrase.IsExpr ∨ phrase.kind = .punctuation → l.Wrote phrase →
    l.YieldsExpr inner phrase

/-- What starts with the bracket of a comprehension has parts. -/
theorem isLeaf_of_comprehensionOpening {kind : SyntaxKind} {opening : TokenKind}
    (h : comprehensionOpening kind = some opening) : kind.isLeaf = false := by
  cases kind <;> first | rfl | cases h

/-- No mark is an expression. -/
theorem kind_ne_of_lowers {phrase : Phrase} {e : Expr Location} (h : Lowers l phrase e) :
    phrase.kind ≠ .punctuation := by
  cases h with
  | literal onLiteral => cases onLiteral <;> exact nofun
  | comprehension isOpening | filtered isOpening =>
    rintro rfl
    cases isOpening
  | _ => exact nofun

/-- What is called decides which call it is. -/
theorem sorts_call {es : List (Expr Location)} {called : Expr Location} {text : String}
    (isNoTypeVar : ∀ b, called ≠ .id b "TypeVar") :
    OnSuccess (match called with
      | .lookup _ object field => (return .methodCall a object field es : Walk (Expr Location))
      | .id _ name => callOfName a name es
      | _ => refuseAt called.note (.unsupportedCallee text)) d
      fun e last => last = d ∧ SortsCall a called es e := by
  cases called with
  | lookup b object field => exact .pure ⟨rfl, .method⟩
  | id b name =>
    simp only [callOfName]
    split
    · next hbuiltin =>
      split
      · exact .pure ⟨rfl, .builtin1 hbuiltin⟩
      · exact .throw trivial
    · next hfirst =>
      split
      · next hbuiltin =>
        split
        · exact .pure ⟨rfl, .builtin2 hbuiltin⟩
        · exact .throw trivial
      · next hsecond =>
        refine .pure ⟨rfl, .function ⟨hfirst, hsecond⟩ ?_⟩
        rintro rfl
        exact isNoTypeVar b rfl
  | _ => exact .throw trivial

/-- The brackets around a comprehension belong together, and say what it builds. -/
theorem brackets_of_ofBrackets? {opening closing : Token} {kind : SyntaxKind}
    {built : ComprehensionKind} (hopening : opening.WrittenIn l.source)
    (hclosing : closing.WrittenIn l.source)
    (isOpening : comprehensionOpening kind = some opening.kind)
    (isClosing : closing.kind.isClosing = true)
    (h : ComprehensionKind.ofBrackets? opening.text closing.text = some built) :
    opening.kind.lexeme? = some built.brackets.1 ∧
      opening.kind.closing? = some closing.kind := by
  rcases opening with ⟨opening, text, span⟩
  rcases closing with ⟨closing, text', span'⟩
  have hopens : opening = .openParen ∨ opening = .openBracket ∨ opening = .openCurly := by
    cases kind <;> cases isOpening <;> simp
  have hcloses : closing = .closeParen ∨ closing = .closeBracket ∨ closing = .closeCurly := by
    cases closing <;> simp_all [TokenKind.isClosing]
  have htext := hopening.lexeme
  have htext' := hclosing.lexeme
  rcases hopens with rfl | rfl | rfl <;> rcases hcloses with rfl | rfl | rfl <;>
    cases htext _ rfl <;> cases htext' _ rfl <;> cases h <;> exact ⟨rfl, rfl⟩

/-- The text of a bracket that is written in the source. -/
theorem textOf_closing {closing : Token} (isClosing : closing.kind.isClosing = true)
    (hwrote : l.Wrote (ofToken .punctuation closing)) :
    l.textOf (ofToken .punctuation closing).node.span = closing.text := by
  apply textOf_written (wrote_ofToken.mp hwrote)
  intro hstring
  rw [hstring] at isClosing
  cases isClosing

section Parts

variable (hinner : l.YieldsInside inner)
include hinner

/-- A walk over the expressions inside yields what they are lowered to. -/
theorem YieldsInside.expr {phrase : Phrase} (h : phrase.IsExpr) (hwrote : l.Wrote phrase) :
    l.YieldsExpr inner phrase :=
  hinner phrase (.inl h) hwrote

/-! ## Calls -/

/-- The arguments of a call. -/
theorem argumentsWith_yields {opening closing : Token} {items : List Phrase}
    (commas : CommasOnly items)
    (onItems : ∀ part ∈ items, part.kind ≠ .punctuation → part.IsExpr)
    (isClosing : closing.kind = .closeParen)
    (hwrote : l.Wrote (group .argList
      (ofToken .punctuation opening :: items ++ [ofToken .punctuation closing]))) :
    Yields (l.argumentsWith inner) (List.Forall₂ (Lowers l) (between items)) (group .argList
      (ofToken .punctuation opening :: items ++ [ofToken .punctuation closing])) := by
  simp only [wrote_group, List.forall_mem_cons, wrote_ofToken, List.cons_append,
    List.mem_append, List.mem_singleton, or_imp, forall_and, forall_eq] at hwrote
  obtain ⟨hopening, hitems, hclosing⟩ := hwrote
  intro d hd
  apply firstChild_facing hd
  intro e he
  have hend : l.reads (ofToken .punctuation closing).node ")" = true := by
    rw [reads_ofToken hclosing (by rw [isClosing]; rfl) rfl]
    rfl
  apply Meets.bind (listOf_facing (R := Lowers l) ⟨by decide, by decide⟩ ?_
    (fun _ _ => kind_ne_of_lowers) ?_ onItems hitems hend he)
  · rintro es last ⟨hlast, -, hes⟩
    exact leave_under hlast (.pure ⟨rfl, hes⟩)
  · intro part hpart
    apply hinner part ?_ (hitems part hpart)
    by_cases hkind : part.kind = .punctuation
    · exact .inr hkind
    · exact .inl (onItems part hpart hkind)
  · intro part hpart hkind
    rcases commas part hpart hkind with ⟨token, hcomma, rfl⟩
    exact ⟨token, .inr hcomma, rfl⟩

/-- A call. -/
theorem call_yields {callee : Phrase} {opening closing : Token} {items : List Phrase}
    (onCallee : callee.IsExpr) (isOpening : opening.kind = .openParen) (commas : CommasOnly items)
    (onItems : ∀ part ∈ items, part.kind ≠ .punctuation → part.IsExpr)
    (isClosing : closing.kind = .closeParen)
    (hwrote : l.Wrote (group .callExpression [callee, group .argList
      (ofToken .punctuation opening :: items ++ [ofToken .punctuation closing])])) :
    l.YieldsExpr (l.call inner) (group .callExpression [callee, group .argList
      (ofToken .punctuation opening :: items ++ [ofToken .punctuation closing])]) := by
  rw [wrote_group, List.forall_mem_cons, List.forall_mem_singleton] at hwrote
  obtain ⟨hcallee, harguments⟩ := hwrote
  have hyields := argumentsWith_yields hinner commas onItems isClosing harguments
  intro d hd
  apply location_bind
  intro a ha
  rw [hd] at ha
  apply enter_facing hd
  intro e he
  apply (genericCallee_yields onCallee hcallee).bind he.node_eq
  rintro (_ | ⟨name, tys⟩) hgeneric
  · apply (hinner.expr onCallee hcallee).bind he.node_eq
    intro called hcalled
    apply text_facing he.node_eq
    split
    · refine leave_under he.under (.pure ⟨rfl, ?_⟩)
      exact .typeVar hcalled (.intro isOpening commas onItems isClosing) ha
    · next hother =>
      apply step_facing he
      intro f hf
      apply hyields.bind hf.node_eq
      intro es hes
      obtain ⟨hlength, hpairs⟩ := List.forall₂_iff_zip.mp hes
      apply leave_under hf.under
      apply (sorts_call hother).mono
      rintro e last ⟨rfl, hsorts⟩
      exact ⟨rfl, .call hcalled isOpening commas hlength hpairs isClosing ha hsorts⟩
  · obtain ⟨hmember, hty⟩ := hgeneric _ rfl
    apply step_facing he
    intro f hf
    apply hyields.bind hf.node_eq
    intro es hes
    obtain ⟨hlength, hpairs⟩ := List.forall₂_iff_zip.mp hes
    exact leave_under hf.under
      (.pure ⟨rfl, .genericCall hty hmember isOpening commas hlength hpairs isClosing ha⟩)

/-! ## Lists -/

/-- The elements of a list up to its closing bracket, if it is there. -/
theorem elements_facing {current : Phrase} {items : List Phrase} {closing : Option Token}
    {limit : Nat} (commas : CommasOnly items)
    (onItems : ∀ part ∈ items, part.kind ≠ .punctuation → part.IsExpr)
    (isClosing : ∀ token ∈ closing, token.kind = .closeBracket)
    (hitems : ∀ part ∈ items, l.Wrote part)
    (hclosing : ∀ token ∈ closing, token.WrittenIn l.source)
    (h : c.Facing (current :: (items ++ optionalMark closing)) d) :
    OnSuccess (l.elements inner limit) d fun result last => c.Under last ∧
      (result.2 = true → closing.isSome = true ∧
        List.Forall₂ (Lowers l) (between items) result.1) := by
  have hend : ∀ token ∈ closing, l.reads (ofToken .punctuation token).node "]" = true := by
    intro token htoken
    rw [reads_ofToken (hclosing token htoken) (by rw [isClosing token htoken]; rfl) rfl]
    rfl
  induction limit generalizing current items d with
  | zero => exact .throw trivial
  | succ limit ih =>
    cases items with
    | nil =>
      cases closing with
      | none => exact nextSibling_last h (.pure ⟨h.under, nofun⟩)
      | some closing =>
        apply nextSibling_facing h
        intro e he
        apply isToken_facing he.node_eq
        rw [hend closing rfl]
        exact .pure ⟨he.under, fun _ => ⟨rfl, .nil⟩⟩
    | cons first more =>
      apply nextSibling_facing h
      intro e he
      apply isToken_facing he.node_eq
      by_cases hkind : first.kind = .punctuation
      · rw [(commas first List.mem_cons_self hkind).reads_eq rfl (hitems first List.mem_cons_self)]
        apply isToken_facing he.node_eq
        rw [(commas first List.mem_cons_self hkind).reads_eq rfl (hitems first List.mem_cons_self)]
        exact refuse_facing
      · have hfirst := onItems first List.mem_cons_self hkind
        rw [reads_of_not_fixed hfirst.isFixedText]
        apply isToken_facing he.node_eq
        rw [reads_of_not_fixed hfirst.isFixedText]
        apply (hinner.expr hfirst (hitems first List.mem_cons_self)).bind he.node_eq
        intro value hvalue
        have hbetween : between (first :: more) = first :: between more :=
          List.filter_cons_of_pos (by simpa using hkind)
        rw [hbetween]
        cases more with
        | nil =>
          cases closing with
          | none => exact nextSibling_last he (.pure ⟨he.under, nofun⟩)
          | some closing =>
            apply nextSibling_facing he
            intro f hf
            apply isToken_facing hf.node_eq
            rw [hend closing rfl]
            exact .pure ⟨hf.under, fun _ => ⟨rfl, .cons hvalue .nil⟩⟩
        | cons second more =>
          have hrest : ∀ part ∈ second :: more, part ∈ first :: second :: more :=
            fun _ => List.mem_cons_of_mem _
          apply nextSibling_facing he
          intro f hf
          apply isToken_facing hf.node_eq
          by_cases hcomma : second.kind = .punctuation
          · have hmark := commas second (by simp) hcomma
            rw [hmark.reads_eq rfl (hitems second (by simp))]
            apply isToken_facing hf.node_eq
            rw [hmark.reads_eq rfl (hitems second (by simp))]
            have hbehind : between (second :: more) = between more :=
              List.filter_cons_of_neg (by simpa using hcomma)
            rw [hbehind]
            apply (ih (fun part hpart => commas part (hrest part (List.mem_cons_of_mem _ hpart)))
              (fun part hpart => onItems part (hrest part (List.mem_cons_of_mem _ hpart)))
              (fun part hpart => hitems part (hrest part (List.mem_cons_of_mem _ hpart))) hf).bind
            rintro ⟨values, closed⟩ last ⟨hlast, hvalues⟩
            refine .pure ⟨hlast, fun hclosed => ?_⟩
            obtain ⟨hsome, hvalues⟩ := hvalues hclosed
            exact ⟨hsome, .cons hvalue hvalues⟩
          · have hsecond := onItems second (by simp) hcomma
            rw [reads_of_not_fixed hsecond.isFixedText]
            apply isToken_facing hf.node_eq
            rw [reads_of_not_fixed hsecond.isFixedText]
            exact text_facing hf.node_eq refuse_facing

/-- A list. -/
theorem list_yields {opening : Token} {items : List Phrase} {closing : Option Token}
    (isOpening : opening.kind = .openBracket) (commas : CommasOnly items)
    (onItems : ∀ part ∈ items, part.kind ≠ .punctuation → part.IsExpr)
    (isClosing : ∀ token ∈ closing, token.kind = .closeBracket)
    (hwrote : l.Wrote (group .arrayExpression
      (ofToken .punctuation opening :: items ++ optionalMark closing))) :
    l.YieldsExpr (l.list inner) (group .arrayExpression
      (ofToken .punctuation opening :: items ++ optionalMark closing)) := by
  simp only [wrote_group, List.forall_mem_cons, wrote_ofToken, List.cons_append,
    List.mem_append, or_imp, forall_and] at hwrote
  obtain ⟨-, hitems, hend⟩ := hwrote
  have hclosing : ∀ token ∈ closing, token.WrittenIn l.source := by
    intro token htoken
    cases htoken
    exact wrote_ofToken.mp (hend _ List.mem_cons_self)
  intro d hd
  apply location_bind
  intro a ha
  rw [hd] at ha
  apply enter_facing hd
  intro e he
  apply (elements_facing hinner commas onItems isClosing hitems hclosing he).bind
  rintro ⟨es, closed⟩ last ⟨hlast, helements⟩
  apply leave_under hlast
  split
  · next hclosed =>
    obtain ⟨hsome, hes⟩ := helements hclosed
    obtain ⟨hlength, hpairs⟩ := List.forall₂_iff_zip.mp hes
    rcases Option.isSome_iff_exists.mp hsome with ⟨closing, rfl⟩
    exact .pure ⟨rfl, .listLiteral isOpening commas hlength hpairs (isClosing closing rfl) ha⟩
  · exact .throw trivial

/-! ## Members -/

omit hinner in
/-- The index of some parts, looked at so far, and of more phrases: it is the one seen already, or
the first expression behind commas only. -/
def FindsIndex (l : Lowering) (parts : IndexParts) (items : List Phrase) (e : Expr Location) :
    Prop :=
  parts.index = some e ∨ parts.index = none ∧ parts.colons = 0 ∧ ∃ before position behind,
    items = before ++ position :: behind ∧ (∀ part ∈ before, part.IsMark (· = .comma)) ∧
    Lowers l position e

section Index

variable {parts next : IndexParts} {items : List Phrase} {first : Phrase} {e : Expr Location}

omit hinner

/-- Behind a colon, no index is looked for. -/
theorem FindsIndex.of_colon (hindex : next.index = parts.index) (hcolons : next.colons ≠ 0)
    (h : l.FindsIndex next items e) : l.FindsIndex parts (first :: items) e := by
  rcases h with hbefore | ⟨-, hzero, -⟩
  · exact .inl (hindex ▸ hbefore)
  · exact absurd hzero hcolons

/-- A comma changes nothing of what has been seen in an index. -/
theorem FindsIndex.of_comma (hindex : next.index = parts.index)
    (hcolons : next.colons = parts.colons) (hcomma : first.IsMark (· = .comma))
    (h : l.FindsIndex next items e) : l.FindsIndex parts (first :: items) e := by
  rcases h with hbefore | ⟨hnone, hzero, before, position, behind, rfl, hcommas, hposition⟩
  · exact .inl (hindex ▸ hbefore)
  · exact .inr ⟨hindex ▸ hnone, hcolons ▸ hzero, first :: before, position, behind, rfl,
      List.forall_mem_cons.mpr ⟨hcomma, hcommas⟩, hposition⟩

/-- The first expression is the index. -/
theorem FindsIndex.of_found {found : Expr Location} (hnone : parts.index = none)
    (hcolons : parts.colons = 0) (hfound : Lowers l first found) (hindex : next.index = some found)
    (h : l.FindsIndex next items e) : l.FindsIndex parts (first :: items) e := by
  rcases h with hbefore | ⟨hnext, -⟩
  · cases hindex.symm.trans hbefore
    exact .inr ⟨hnone, hcolons, [], first, items, rfl, nofun, hfound⟩
  · cases hindex.symm.trans hnext

/-- Behind the index, expressions are passed over. -/
theorem FindsIndex.of_passed (hpassed : ¬(parts.index = none ∧ parts.colons = 0))
    (hindex : next.index = parts.index) (hcolons : next.colons = parts.colons)
    (h : l.FindsIndex next items e) : l.FindsIndex parts (first :: items) e := by
  rcases h with hbefore | ⟨hnone, hzero, -⟩
  · exact .inl (hindex ▸ hbefore)
  · exact absurd ⟨hindex ▸ hnone, hcolons ▸ hzero⟩ hpassed

end Index

/-- What is looked at in the brackets of an index. -/
theorem indexParts_facing {current : Phrase} {items : List Phrase} {closing : Token}
    {limit : Nat} {parts : IndexParts}
    (marks : ∀ part ∈ items, part.kind = .punctuation →
      part.IsMark fun kind => kind = .colon ∨ kind = .comma)
    (onItems : ∀ part ∈ items, part.kind ≠ .punctuation → part.IsExpr)
    (isClosing : closing.kind = .closeBracket) (hitems : ∀ part ∈ items, l.Wrote part)
    (hclosing : closing.WrittenIn l.source)
    (h : c.Facing (current :: (items ++ [ofToken .punctuation closing])) d) :
    OnSuccess (l.indexParts inner limit parts) d fun result last => c.Under last ∧
      ∀ e, result.index = some e → l.FindsIndex parts items e := by
  induction limit generalizing current items parts d with
  | zero => exact .throw trivial
  | succ limit ih =>
    cases items with
    | nil =>
      apply nextSibling_facing h
      intro e he
      apply isToken_facing he.node_eq
      rw [reads_ofToken hclosing (by rw [isClosing]; rfl) rfl]
      exact .pure ⟨he.under, fun _ hindex => .inl hindex⟩
    | cons first more =>
      rw [List.forall_mem_cons] at marks onItems hitems
      apply nextSibling_facing h
      intro e he
      have hmore {next : IndexParts} (hnext : ∀ value, l.FindsIndex next more value →
          l.FindsIndex parts (first :: more) value) :
          OnSuccess (l.indexParts inner limit next) e fun result last => c.Under last ∧
            ∀ e, result.index = some e → l.FindsIndex parts (first :: more) e :=
        (ih marks.2 onItems.2 hitems.2 he).mono fun _ _ hlast =>
          ⟨hlast.1, fun value hvalue => hnext value (hlast.2 value hvalue)⟩
      apply isToken_facing he.node_eq
      by_cases hkind : first.kind = .punctuation
      · rcases marks.1 hkind with ⟨token, hcolon | hcomma, rfl⟩
        · have hmark : (ofToken .punctuation token).IsMark (· = .colon) := ⟨token, hcolon, rfl⟩
          rw [hmark.reads_eq rfl hitems.1]
          apply isToken_facing he.node_eq
          rw [hmark.reads_eq rfl hitems.1]
          exact hmore fun _ => .of_colon rfl (Nat.succ_ne_zero _)
        · have hmark : (ofToken .punctuation token).IsMark (· = .comma) := ⟨token, hcomma, rfl⟩
          rw [hmark.reads_eq rfl hitems.1]
          apply isToken_facing he.node_eq
          rw [hmark.reads_eq rfl hitems.1]
          apply isToken_facing he.node_eq
          rw [hmark.reads_eq rfl hitems.1]
          exact hmore fun _ => .of_comma rfl rfl hmark
      · have hexpr := onItems.1 hkind
        rw [reads_of_not_fixed hexpr.isFixedText]
        apply isToken_facing he.node_eq
        rw [reads_of_not_fixed hexpr.isFixedText]
        apply isToken_facing he.node_eq
        rw [reads_of_not_fixed hexpr.isFixedText]
        simp only [Bool.false_eq_true, if_false, Bool.and_eq_true, Option.isNone_iff_eq_none,
          decide_eq_true_eq]
        split
        · next hlooks =>
          apply (hinner.expr hexpr hitems.1).bind he.node_eq
          intro found hfound
          exact hmore fun _ => .of_found hlooks.1 hlooks.2 hfound rfl
        · next hpassed => exact hmore fun _ => .of_passed hpassed rfl rfl

/-- A field of an object. -/
theorem member_property {object : Phrase} {dot name : Token} (onObject : object.IsExpr)
    (isDot : dot.kind = .dot) (isName : name.kind = .identifier)
    (hwrote : l.Wrote (group .memberExpression
      [object, ofToken .punctuation dot, ofToken .propertyName name]))
    (ha : l.Locates (group .memberExpression
      [object, ofToken .punctuation dot, ofToken .propertyName name]) a) :
    l.YieldsExpr (l.member inner a) (group .memberExpression
      [object, ofToken .punctuation dot, ofToken .propertyName name]) := by
  rw [wrote_group, List.forall_mem_cons, List.forall_mem_cons, List.forall_mem_singleton,
    wrote_ofToken] at hwrote
  obtain ⟨hobject, hdot, hname⟩ := hwrote
  intro d hd
  apply enter_facing hd
  intro e he
  apply (hinner.expr onObject hobject).bind he.node_eq
  intro value hvalue
  apply step_facing he
  intro f hf
  apply isToken_facing hf.node_eq
  rw [reads_ofToken hdot (by rw [isDot]; rfl) rfl]
  apply step_facing hf
  intro i hi
  apply text_facing hi.node_eq
  rw [textOf_name isName hname]
  exact leave_under hi.under (.pure ⟨rfl, .lookup hvalue isDot isName ha⟩)

/-- An element of a list. -/
theorem member_index {object : Phrase} {opening closing : Token} {inside : List Phrase}
    (onObject : object.IsExpr) (isOpening : opening.kind = .openBracket)
    (marks : ∀ part ∈ inside, part.kind = .punctuation →
      part.IsMark fun kind => kind = .colon ∨ kind = .comma)
    (onInside : ∀ part ∈ inside, part.kind ≠ .punctuation → part.IsExpr)
    (isClosing : closing.kind = .closeBracket)
    (hwrote : l.Wrote (group .memberExpression (object :: ofToken .punctuation opening :: inside ++
      [ofToken .punctuation closing])))
    (ha : l.Locates (group .memberExpression (object :: ofToken .punctuation opening :: inside ++
      [ofToken .punctuation closing])) a) :
    l.YieldsExpr (l.member inner a) (group .memberExpression
      (object :: ofToken .punctuation opening :: inside ++ [ofToken .punctuation closing])) := by
  simp only [wrote_group, List.forall_mem_cons, wrote_ofToken, List.cons_append,
    List.mem_append, List.mem_singleton, or_imp, forall_and, forall_eq] at hwrote
  obtain ⟨hobject, hopening, hinside, hclosing⟩ := hwrote
  intro d hd
  apply enter_facing hd
  intro e he
  apply (hinner.expr onObject hobject).bind he.node_eq
  intro value hvalue
  apply step_facing he
  intro f hf
  apply isToken_facing hf.node_eq
  rw [reads_ofToken hopening (by rw [isOpening]; rfl) rfl]
  apply isToken_facing hf.node_eq
  rw [reads_ofToken hopening (by rw [isOpening]; rfl) rfl]
  apply (indexParts_facing hinner marks onInside isClosing hinside hclosing hf).bind
  rintro parts last ⟨hlast, hindex⟩
  apply leave_under hlast
  split
  · exact .throw trivial
  · split
    · exact .throw trivial
    · split
      · next position hposition =>
        split
        · exact .throw trivial
        · rcases hindex position hposition with hbefore | ⟨-, -, before, phrase, behind, rfl,
            hcommas, hphrase⟩
          · cases hbefore
          · refine .pure ⟨rfl, .index hvalue isOpening hcommas hphrase ?_ ?_ isClosing ha⟩
            · intro part hpart
              exact marks part (List.mem_append_right _ (List.mem_cons_of_mem _ hpart))
            · intro part hpart
              exact onInside part (List.mem_append_right _ (List.mem_cons_of_mem _ hpart))
      · exact .throw trivial

/-! ## Comprehensions -/

/-- A comprehension, over what its end gives. -/
theorem comprehension_facing {kind : SyntaxKind} {opening forWord item inWord : Token}
    {result iterable : Phrase} {more : List Phrase}
    {E : Option (Expr Location) → String → Prop}
    (isOpening : comprehensionOpening kind = some opening.kind) (onResult : result.IsExpr)
    (isItem : item.kind = .identifier) (onIterable : iterable.IsExpr)
    (hopening : opening.WrittenIn l.source) (hresult : l.Wrote result)
    (hitem : l.Wrote (ofToken .variableName item)) (hiterable : l.Wrote iterable)
    (hend : ∀ c d : Cursor, c.Facing (iterable :: more) d →
      OnSuccess (l.comprehensionEnd inner) d fun found last =>
        c.Under last ∧ E found.1 found.2) :
    Yields (l.comprehension inner a) (fun e => ∃ built value value' filter closing,
        e = .comprehension a built value item.text value' filter ∧ Lowers l result value ∧
        Lowers l iterable value' ∧ E filter closing ∧
        ComprehensionKind.ofBrackets? opening.text closing = some built)
      (group kind (ofToken .punctuation opening :: result :: ofToken .keyword forWord ::
        ofToken .variableName item :: ofToken .keyword inWord :: iterable :: more)) := by
  have hbracket : l.textOf (ofToken .punctuation opening).node.span = opening.text := by
    apply textOf_written hopening
    intro hstring
    rw [hstring] at isOpening
    cases kind <;> cases isOpening
  intro d hd
  apply enter_facing hd
  intro e he
  apply text_facing he.node_eq
  rw [hbracket]
  apply step_facing he
  intro f hf
  apply (hinner.expr onResult hresult).bind hf.node_eq
  intro value hvalue
  apply step_facing hf
  intro g hg
  apply step_facing hg
  intro i hi
  apply text_facing hi.node_eq
  rw [textOf_name isItem hitem]
  apply step_facing hi
  intro j hj
  apply step_facing hj
  intro k hk
  apply (hinner.expr onIterable hiterable).bind hk.node_eq
  intro value' hvalue'
  apply (hend d k hk).bind
  rintro ⟨filter, closing⟩ last ⟨hlast, hfound⟩
  apply leave_under hlast
  dsimp only
  split
  · next built hbuilt =>
    exact .pure ⟨rfl, built, value, value', filter, closing, rfl, hvalue, hvalue', hfound, hbuilt⟩
  · exact .throw trivial

omit hinner in
/-- Behind the iterable stands the closing bracket. -/
theorem comprehensionEnd_facing {iterable : Phrase} {closing : Token}
    (isClosing : closing.kind.isClosing = true)
    (hwrote : l.Wrote (ofToken .punctuation closing))
    (h : c.Facing [iterable, ofToken .punctuation closing] d) :
    OnSuccess (l.comprehensionEnd inner) d fun found last =>
      c.Under last ∧ found.1 = none ∧ found.2 = closing.text := by
  have hmark : (ofToken .punctuation closing).IsMark fun kind => kind.isClosing = true :=
    ⟨closing, isClosing, rfl⟩
  have hreads : l.reads (ofToken .punctuation closing).node "if" = false := by
    apply hmark.reads hwrote
    intro kind hkind
    cases kind <;> first | exact ⟨_, rfl, by decide⟩ | cases hkind
  apply nextSibling_facing h
  intro e he
  apply isToken_facing he.node_eq
  rw [hreads]
  apply text_facing he.node_eq
  rw [textOf_closing isClosing hwrote]
  exact .pure ⟨he.under, rfl, rfl⟩

/-- Behind the iterable stand a filter and the closing bracket. -/
theorem comprehensionEnd_filter {iterable filter : Phrase} {ifWord closing : Token}
    (isIf : ifWord.kind = .ifWord) (onFilter : filter.IsExpr)
    (isClosing : closing.kind.isClosing = true) (hif : l.Wrote (ofToken .keyword ifWord))
    (hfilter : l.Wrote filter) (hwrote : l.Wrote (ofToken .punctuation closing))
    (h : c.Facing [iterable, ofToken .keyword ifWord, filter, ofToken .punctuation closing] d) :
    OnSuccess (l.comprehensionEnd inner) d fun found last =>
      c.Under last ∧ (∃ value, found.1 = some value ∧ Lowers l filter value) ∧
        found.2 = closing.text := by
  apply nextSibling_facing h
  intro e he
  apply isToken_facing he.node_eq
  rw [reads_ofToken (wrote_ofToken.mp hif) (by rw [isIf]; rfl) rfl]
  apply step_facing he
  intro f hf
  apply (hinner.expr onFilter hfilter).bind hf.node_eq
  intro value hvalue
  apply nextSibling_facing hf
  intro g hg
  apply text_facing hg.node_eq
  rw [textOf_closing isClosing hwrote]
  exact .pure ⟨hg.under, ⟨value, rfl, hvalue⟩, rfl⟩

/-- A comprehension yields a comprehension. -/
theorem comprehension_yields {kind : SyntaxKind} {opening forWord item inWord closing : Token}
    {result iterable : Phrase} (isOpening : comprehensionOpening kind = some opening.kind)
    (onResult : result.IsExpr) (isFor : forWord.kind = .forWord) (isItem : item.kind = .identifier)
    (isIn : inWord.kind = .inWord) (onIterable : iterable.IsExpr)
    (isClosing : closing.kind.isClosing = true)
    (hwrote : l.Wrote (group kind [ofToken .punctuation opening, result,
      ofToken .keyword forWord, ofToken .variableName item, ofToken .keyword inWord, iterable,
      ofToken .punctuation closing]))
    (ha : l.Locates (group kind [ofToken .punctuation opening, result,
      ofToken .keyword forWord, ofToken .variableName item, ofToken .keyword inWord, iterable,
      ofToken .punctuation closing]) a) :
    l.YieldsExpr (l.comprehension inner a) (group kind [ofToken .punctuation opening, result,
      ofToken .keyword forWord, ofToken .variableName item, ofToken .keyword inWord, iterable,
      ofToken .punctuation closing]) := by
  simp only [wrote_group, List.forall_mem_cons] at hwrote
  obtain ⟨hopening, hresult, -, hitem, -, hiterable, hclosing, -⟩ := hwrote
  apply (comprehension_facing (E := fun filter text => filter = none ∧ text = closing.text)
    hinner isOpening onResult isItem onIterable (wrote_ofToken.mp hopening) hresult hitem hiterable
    fun _ _ hend => comprehensionEnd_facing isClosing hclosing hend).mono
  rintro _ ⟨built, value, value', _, _, rfl, hvalue, hvalue', ⟨rfl, rfl⟩, hbuilt⟩
  obtain ⟨hbuilds, hmatching⟩ := brackets_of_ofBrackets? (wrote_ofToken.mp hopening)
    (wrote_ofToken.mp hclosing) isOpening isClosing hbuilt
  exact .comprehension isOpening hbuilds hmatching hvalue isFor isItem isIn hvalue' ha

/-- So does a comprehension with a filter. -/
theorem filtered_yields {kind : SyntaxKind} {opening forWord item inWord ifWord closing : Token}
    {result iterable filter : Phrase} (isOpening : comprehensionOpening kind = some opening.kind)
    (onResult : result.IsExpr) (isFor : forWord.kind = .forWord) (isItem : item.kind = .identifier)
    (isIn : inWord.kind = .inWord) (onIterable : iterable.IsExpr) (isIf : ifWord.kind = .ifWord)
    (onFilter : filter.IsExpr) (isClosing : closing.kind.isClosing = true)
    (hwrote : l.Wrote (group kind [ofToken .punctuation opening, result,
      ofToken .keyword forWord, ofToken .variableName item, ofToken .keyword inWord, iterable,
      ofToken .keyword ifWord, filter, ofToken .punctuation closing]))
    (ha : l.Locates (group kind [ofToken .punctuation opening, result,
      ofToken .keyword forWord, ofToken .variableName item, ofToken .keyword inWord, iterable,
      ofToken .keyword ifWord, filter, ofToken .punctuation closing]) a) :
    l.YieldsExpr (l.comprehension inner a) (group kind [ofToken .punctuation opening, result,
      ofToken .keyword forWord, ofToken .variableName item, ofToken .keyword inWord, iterable,
      ofToken .keyword ifWord, filter, ofToken .punctuation closing]) := by
  simp only [wrote_group, List.forall_mem_cons] at hwrote
  obtain ⟨hopening, hresult, -, hitem, -, hiterable, hif, hfilter, hclosing, -⟩ := hwrote
  apply (comprehension_facing (E := fun found text =>
      (∃ value, found = some value ∧ Lowers l filter value) ∧ text = closing.text)
    hinner isOpening onResult isItem onIterable (wrote_ofToken.mp hopening) hresult hitem hiterable
    fun _ _ hend =>
      comprehensionEnd_filter hinner isIf onFilter isClosing hif hfilter hclosing hend).mono
  rintro _ ⟨built, value, value', _, _, rfl, hvalue, hvalue', ⟨⟨value'', rfl, hvalue''⟩, rfl⟩,
    hbuilt⟩
  obtain ⟨hbuilds, hmatching⟩ := brackets_of_ofBrackets? (wrote_ofToken.mp hopening)
    (wrote_ofToken.mp hclosing) isOpening isClosing hbuilt
  exact .filtered isOpening hbuilds hmatching hvalue isFor isItem isIn hvalue' isIf hvalue'' ha

/-! ## Operators and parentheses -/

/-- An expression in parentheses yields what is inside. -/
theorem parenthesized_yields {opening : Token} {inside : Phrase} {closing : Option Token}
    (isOpening : opening.kind = .openParen) (onInside : inside.IsExpr)
    (isClosing : ∀ token ∈ closing, token.kind = .closeParen)
    (hwrote : l.Wrote (group .parenthesizedExpression
      (ofToken .punctuation opening :: inside :: optionalMark closing))) :
    l.YieldsExpr (l.parenthesized inner a) (group .parenthesizedExpression
      (ofToken .punctuation opening :: inside :: optionalMark closing)) := by
  simp only [wrote_group, List.forall_mem_cons] at hwrote
  obtain ⟨-, hinside, hend⟩ := hwrote
  intro d hd
  apply enter_facing hd
  intro e he
  apply step_facing he
  intro f hf
  apply (hinner.expr onInside hinside).bind hf.node_eq
  intro value hvalue
  cases closing with
  | none =>
    apply stepTo_last hf
    exact leave_under hf.under (.throw trivial)
  | some closing =>
    have hclosing : closing.WrittenIn l.source := wrote_ofToken.mp (hend _ List.mem_cons_self)
    apply stepTo_facing hf
    intro g hg
    rw [reads_ofToken hclosing (by rw [isClosing closing rfl]; rfl) rfl]
    exact leave_under hg.under
      (.pure ⟨rfl, .parenthesized isOpening hvalue (isClosing closing rfl)⟩)

/-- A binary expression yields a binary operation. -/
theorem binary_yields {left right : Phrase} {operator : Token} {power : Power}
    (onLeft : left.IsExpr)
    (isOperator : Grammar.standard.suffix operator.kind = some (power, .binary))
    (onRight : right.IsExpr)
    (hwrote : l.Wrote (group .binaryExpression [left, ofToken .operator operator, right]))
    (ha : l.Locates (group .binaryExpression [left, ofToken .operator operator, right]) a) :
    l.YieldsExpr (l.binary inner a)
      (group .binaryExpression [left, ofToken .operator operator, right]) := by
  simp only [wrote_group, List.forall_mem_cons] at hwrote
  obtain ⟨hleft, hoperator, hright, -⟩ := hwrote
  have htext : l.textOf (ofToken .operator operator).node.span = operator.text := by
    apply textOf_written (wrote_ofToken.mp hoperator)
    intro hstring
    rw [hstring] at isOperator
    cases isOperator
  intro d hd
  apply enter_facing hd
  intro e he
  apply (hinner.expr onLeft hleft).bind he.node_eq
  intro value hvalue
  apply step_facing he
  intro f hf
  apply text_facing hf.node_eq
  rw [htext]
  split
  · next op hop =>
    apply step_facing hf
    intro g hg
    apply (hinner.expr onRight hright).bind hg.node_eq
    intro value' hvalue'
    exact leave_under hg.under (.pure ⟨rfl, .binOp hvalue isOperator hop hvalue' ha⟩)
  · exact refuse_facing

/-- A unary expression yields a unary operation. -/
theorem unary_yields {operand : Phrase} {operator : Token}
    (isOperator : operator.kind = .notWord ∨ operator.kind = .dash) (onOperand : operand.IsExpr)
    (hwrote : l.Wrote (group .unaryExpression [ofToken .operator operator, operand]))
    (ha : l.Locates (group .unaryExpression [ofToken .operator operator, operand]) a) :
    l.YieldsExpr (l.unary inner a)
      (group .unaryExpression [ofToken .operator operator, operand]) := by
  simp only [wrote_group, List.forall_mem_cons] at hwrote
  obtain ⟨hoperator, hoperand, -⟩ := hwrote
  have htext : l.textOf (ofToken .operator operator).node.span = operator.text := by
    apply textOf_written (wrote_ofToken.mp hoperator)
    rcases isOperator with hkind | hkind <;> simp [hkind]
  intro d hd
  apply enter_facing hd
  intro e he
  apply text_facing he.node_eq
  rw [htext]
  split
  · next op hop =>
    apply step_facing he
    intro f hf
    apply (hinner.expr onOperand hoperand).bind hf.node_eq
    intro value hvalue
    exact leave_under hf.under (.pure ⟨rfl, .uniOp hvalue isOperator hop ha⟩)
  · exact refuse_facing

/-- A conditional expression yields a choice. -/
theorem conditional_yields {value condition otherwise : Phrase} {ifWord elseWord : Token}
    (onValue : value.IsExpr) (isIf : ifWord.kind = .ifWord) (onCondition : condition.IsExpr)
    (isElse : elseWord.kind = .elseWord) (onOtherwise : otherwise.IsExpr)
    (hwrote : l.Wrote (group .conditionalExpression
      [value, ofToken .keyword ifWord, condition, ofToken .keyword elseWord, otherwise]))
    (ha : l.Locates (group .conditionalExpression
      [value, ofToken .keyword ifWord, condition, ofToken .keyword elseWord, otherwise]) a) :
    l.YieldsExpr (conditional inner a) (group .conditionalExpression
      [value, ofToken .keyword ifWord, condition, ofToken .keyword elseWord, otherwise]) := by
  simp only [wrote_group, List.forall_mem_cons] at hwrote
  obtain ⟨hvalue, -, hcondition, -, hotherwise, -⟩ := hwrote
  intro d hd
  apply enter_facing hd
  intro e he
  apply (hinner.expr onValue hvalue).bind he.node_eq
  intro ifTrue htrue
  apply step_facing he
  intro f hf
  apply step_facing hf
  intro g hg
  apply (hinner.expr onCondition hcondition).bind hg.node_eq
  intro test htest
  apply step_facing hg
  intro i hi
  apply step_facing hi
  intro j hj
  apply (hinner.expr onOtherwise hotherwise).bind hj.node_eq
  intro ifFalse hfalse
  exact leave_under hj.under (.pure ⟨rfl, .ternary htrue isIf htest isElse hfalse ha⟩)

/-! ## All expressions -/

/-- An expression, over a walk for the expressions inside. -/
theorem exprWith_yields {phrase : Phrase}
    (hphrase : phrase.IsExpr ∨ phrase.kind = .punctuation) (hwrote : l.Wrote phrase) :
    l.YieldsExpr (l.exprWith inner) phrase := by
  intro d hd
  apply location_bind
  intro a ha
  rw [hd] at ha
  apply kind_facing hd
  rcases hphrase with hexpr | hmark
  · cases hexpr with
    | number isNumber =>
      apply (literal_yields (.number isNumber) hwrote).bind hd
      intro value hvalue
      exact .pure ⟨rfl, .literal hvalue nofun ha⟩
    | boolean isBoolean =>
      apply (literal_yields (.boolean isBoolean) hwrote).bind hd
      intro value hvalue
      exact .pure ⟨rfl, .literal hvalue nofun ha⟩
    | none isNone =>
      apply (literal_yields (.none isNone) hwrote).bind hd
      intro value hvalue
      exact .pure ⟨rfl, .literal hvalue nofun ha⟩
    | name isName =>
      apply text_facing hd
      rw [textOf_name isName hwrote]
      exact .pure ⟨rfl, .id isName ha⟩
    | string => exact text_facing hd refuse_facing
    | unary isOperator onOperand => exact unary_yields hinner isOperator onOperand hwrote ha d hd
    | binary onLeft isOperator onRight =>
      exact binary_yields hinner onLeft isOperator onRight hwrote ha d hd
    | conditional onValue isIf onCondition isElse onOtherwise =>
      exact conditional_yields hinner onValue isIf onCondition isElse onOtherwise hwrote ha d hd
    | parenthesized isOpening onInside isClosing =>
      exact parenthesized_yields hinner isOpening onInside isClosing hwrote d hd
    | @emptyList opening closing isOpening isClosing =>
      exact @list_yields _ _ hinner _ [] (some closing) isOpening nofun nofun
        (by simpa using isClosing) hwrote d hd
    | list isOpening onFirst commas onMore isClosing =>
      have hcommas := List.forall_mem_cons.mpr ⟨fun hkind => absurd hkind onFirst.kind_ne, commas⟩
      have hexprs := List.forall_mem_cons.mpr ⟨fun _ => onFirst, onMore⟩
      exact list_yields hinner isOpening hcommas hexprs isClosing hwrote d hd
    | @comprehension kind _ _ _ _ _ _ _ isOpening onResult isFor isItem isIn onIterable isClosing =>
      have h := comprehension_yields hinner isOpening onResult isFor isItem isIn onIterable
        isClosing hwrote ha d hd
      cases kind <;> first | exact h | cases isOpening
    | @filtered kind _ _ _ _ _ _ _ _ _ isOpening onResult isFor isItem isIn onIterable isIf onFilter
        isClosing =>
      have h := filtered_yields hinner isOpening onResult isFor isItem isIn onIterable isIf onFilter
        isClosing hwrote ha d hd
      cases kind <;> first | exact h | cases isOpening
    | call onCallee isOpening commas onItems isClosing =>
      exact call_yields hinner onCallee isOpening commas onItems isClosing hwrote d hd
    | property onObject isDot isName =>
      exact member_property hinner onObject isDot isName hwrote ha d hd
    | index onObject isOpening marks onInside isClosing =>
      exact member_index hinner onObject isOpening marks onInside isClosing hwrote ha d hd
  · rw [hmark]
    exact text_facing hd refuse_facing

end Parts

/-- An expression within a limit yields what it is lowered to, if it ends. -/
theorem exprWithin_yields (fuel : Nat) : l.YieldsInside (l.exprWithin fuel) := by
  induction fuel with
  | zero => exact fun _ _ _ _ _ => .throw trivial
  | succ fuel ih => exact fun _ hphrase hwrote => exprWith_yields ih hphrase hwrote

/-- The walk over an expression gives the expression that a phrase lowers to. -/
theorem expr_yields {phrase : Phrase} (h : phrase.IsExpr) (hwrote : l.Wrote phrase) :
    l.YieldsExpr l.expr phrase :=
  (exprWithin_yields l.limit).expr h hwrote

end Lowering
end Offside
