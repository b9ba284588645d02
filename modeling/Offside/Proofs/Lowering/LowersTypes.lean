import Offside.Proofs.Lowering.Lowers
import Offside.Proofs.Lowering.Rows

/-!
# Types and literals as they are read

A walk over a phrase that is accepted as a type or a literal gives the type or the literal that
the phrase lowers to.  So does the look at the type arguments of a call.

Main results:

- Theorem `ty_yields`: the walk over a type.
- Theorem `literal_yields`: the walk over a literal.
- Theorem `genericCallee_yields`: a callee with type arguments is a type.
-/

namespace Offside
namespace Lowering

open Walk Phrase

variable {l : Lowering} {c d : Cursor} {phrase : Phrase}

/-- The refusal of a type is made on the spot. -/
theorem invalidType_facing {β : Type} {next : Failure → Walk β} {post : β → Cursor → Prop}
    (hnext : ∀ failure, OnSuccess (next failure) d post) :
    OnSuccess (l.invalidType >>= next) d post := by
  have hinvalid : OnSuccess l.invalidType d fun _ last => last = d := by
    have hself : d.node = Phrase.node ⟨d.node, []⟩ := rfl
    apply text_facing hself
    exact location_bind fun _ _ => .pure rfl
  apply hinvalid.bind
  rintro failure _ rfl
  exact hnext failure

/-! ## Types -/

/-- No mark is a type. -/
theorem kind_ne_of_lowersTy {ty : Ty} (h : LowersTy phrase ty) : phrase.kind ≠ .punctuation := by
  cases h <;> exact nofun

/-- A name with types in brackets behind it is the type of an object. -/
theorem typeList_facing {inner : Walk Ty} {name opening closing : Token} {inside : List Phrase}
    (hinner : ∀ part : Phrase, part.IsExpr ∨ part.kind = .punctuation → l.Wrote part →
      Yields inner (LowersTy part) part)
    (isName : name.kind = .identifier) (isOpening : opening.kind = .openBracket)
    (marks : ∀ part ∈ inside, part.kind = .punctuation →
      part.IsMark fun kind => kind = .colon ∨ kind = .comma)
    (onInside : ∀ part ∈ inside, part.kind ≠ .punctuation → part.IsExpr)
    (isClosing : closing.kind = .closeBracket) (hinside : ∀ part ∈ inside, l.Wrote part)
    (hclosing : closing.WrittenIn l.source)
    (h : c.Facing (ofToken .punctuation opening :: (inside ++ [ofToken .punctuation closing])) d) :
    OnSuccess (l.listUntil "]" do return [← inner]) d fun tys last => c.Under last ∧
      LowersTy (group .memberExpression (ofToken .variableName name ::
        ofToken .punctuation opening :: inside ++ [ofToken .punctuation closing]))
        (.object name.text tys) := by
  have hend : l.reads (ofToken .punctuation closing).node "]" = true := by
    rw [reads_ofToken hclosing (by rw [isClosing]; rfl) rfl]
    rfl
  apply (listOf_facing (R := LowersTy) ⟨by decide, by decide⟩ ?_
    (fun _ _ => kind_ne_of_lowersTy) marks onInside hinside hend h).mono
  · rintro tys last ⟨hlast, hcommas, htys⟩
    obtain ⟨hlength, hpairs⟩ := List.forall₂_iff_zip.mp htys
    exact ⟨hlast, .object isName isOpening hcommas hlength hpairs isClosing⟩
  · intro part hpart
    apply hinner part ?_ (hinside part hpart)
    by_cases hkind : part.kind = .punctuation
    · exact .inr hkind
    · exact .inl (onInside part hpart hkind)

/-- A name reads as its text. -/
theorem textOf_name {name : Token} {kind : SyntaxKind} (isName : name.kind = .identifier)
    (hwrote : l.Wrote (ofToken kind name)) : l.textOf (ofToken kind name).node.span = name.text :=
  textOf_written (wrote_ofToken.mp hwrote) (by simp [isName])

/-- A type, over a walk for the types inside. -/
theorem tyWith_yields {inner : Walk Ty}
    (hinner : ∀ part : Phrase, part.IsExpr ∨ part.kind = .punctuation → l.Wrote part →
      Yields inner (LowersTy part) part)
    (hphrase : phrase.IsExpr ∨ phrase.kind = .punctuation) (hwrote : l.Wrote phrase) :
    Yields (l.tyWith inner) (LowersTy phrase) phrase := by
  intro d hd
  apply kind_facing hd
  rcases hphrase with hexpr | hmark
  · cases hexpr with
    | @name token isName =>
      apply text_facing hd
      rw [textOf_name isName hwrote]
      exact .pure ⟨rfl, .name isName⟩
    | none isNone => exact .pure ⟨rfl, .none isNone⟩
    | @emptyList opening closing isOpening isClosing =>
      simp only [wrote_group, List.forall_mem_cons, wrote_ofToken] at hwrote
      apply invalidType_facing
      intro invalid
      apply enter_facing hd
      intro e he
      apply nextSibling_facing he
      intro f hf
      apply isToken_facing hf.node_eq
      rw [reads_ofToken hwrote.2.1 (by rw [isClosing]; rfl) rfl]
      exact leave_under hf.under (.throw trivial)
    | @list opening first more closing isOpening onFirst marks onMore isClosing =>
      simp only [wrote_group, List.forall_mem_cons, wrote_ofToken, List.cons_append] at hwrote
      apply invalidType_facing
      intro invalid
      apply enter_facing hd
      intro e he
      apply nextSibling_facing he
      intro f hf
      apply isToken_facing hf.node_eq
      rw [reads_of_not_fixed onFirst.isFixedText]
      apply (hinner first (.inl onFirst) hwrote.2.1).bind hf.node_eq
      intro ty hty
      -- The closing bracket has to be the next part.
      cases more with
      | nil =>
        cases closing with
        | none =>
          apply stepTo_last hf
          exact leave_under hf.under (.throw trivial)
        | some closing =>
          apply stepTo_facing hf
          intro i hi
          have hkind : closing.kind = .closeBracket := isClosing closing rfl
          have hwritten : closing.WrittenIn l.source :=
            wrote_ofToken.mp (hwrote.2.2 _ List.mem_cons_self)
          rw [reads_ofToken hwritten (by rw [hkind]; rfl) rfl]
          exact leave_under hi.under (.pure ⟨rfl, .list isOpening hty hkind⟩)
      | cons other more =>
        apply stepTo_facing hf
        intro i hi
        have hother : l.reads other.node "]" = false := by
          by_cases hkind : other.kind = .punctuation
          · apply (marks other List.mem_cons_self hkind).reads (hwrote.2.2 _ List.mem_cons_self)
            rintro _ rfl
            exact ⟨",", rfl, by decide⟩
          · exact reads_of_not_fixed (onMore other List.mem_cons_self hkind).isFixedText _
        rw [hother]
        exact leave_under hi.under (.throw trivial)
    | @property object dot name onObject isDot isName =>
      simp only [wrote_group, List.forall_mem_cons, wrote_ofToken] at hwrote
      apply invalidType_facing
      intro invalid
      apply enter_facing hd
      intro e he
      apply text_facing he.node_eq
      apply isAt_andAlso_facing he.node_eq
      · intro _
        apply stepTo_facing he
        intro f hf
        rw [reads_ofToken hwrote.2.1 (by rw [isDot]; rfl) rfl]
        exact leave_under hf.under (.throw trivial)
      · intro _
        exact leave_under he.under (.throw trivial)
    | @index object opening inside closing onObject isOpening marks onInside isClosing =>
      simp only [wrote_group, List.forall_mem_cons, wrote_ofToken, List.cons_append,
        List.mem_append, List.mem_singleton, or_imp, forall_and, forall_eq] at hwrote
      obtain ⟨hobject, hopening, hinside, hclosing⟩ := hwrote
      apply invalidType_facing
      intro invalid
      apply enter_facing hd
      intro e he
      apply text_facing he.node_eq
      apply isAt_andAlso_facing he.node_eq
      · intro hkind
        apply stepTo_facing he
        intro f hf
        rw [reads_ofToken hopening (by rw [isOpening]; rfl) rfl]
        rcases onObject.eq_name hkind with ⟨name, isName, rfl⟩
        apply (typeList_facing hinner isName isOpening marks onInside isClosing hinside hclosing
          hf).bind
        rintro tys last ⟨hlast, htys⟩
        rw [← textOf_name isName hobject] at htys
        exact leave_under hlast (.pure ⟨rfl, htys⟩)
      · intro _
        exact leave_under he.under (.throw trivial)
    | @comprehension kind _ _ _ _ _ _ _ isOpening | @filtered kind _ _ _ _ _ _ _ _ _ isOpening =>
      cases kind <;> first | exact onSuccess_throws | cases isOpening
    | _ => exact onSuccess_throws
  · rw [hmark]
    exact onSuccess_throws

theorem tyWithin_yields (fuel : Nat) (hphrase : phrase.IsExpr ∨ phrase.kind = .punctuation)
    (hwrote : l.Wrote phrase) : Yields (l.tyWithin fuel) (LowersTy phrase) phrase := by
  induction fuel generalizing phrase with
  | zero => exact fun _ _ => .throw trivial
  | succ fuel ih => exact tyWith_yields (fun _ => ih) hphrase hwrote

/-- The walk over a type gives the type that a phrase lowers to. -/
theorem ty_yields (hphrase : phrase.IsExpr ∨ phrase.kind = .punctuation)
    (hwrote : l.Wrote phrase) : Yields l.ty (LowersTy phrase) phrase :=
  tyWithin_yields l.limit hphrase hwrote

theorem typeDef_yields (hphrase : phrase.IsTypeDef) (hwrote : l.Wrote phrase) :
    Yields l.typeDef (LowersTypeDef phrase) phrase := by
  cases hphrase with
  | intro onType isMarker =>
    simp only [wrote_group, List.forall_mem_cons] at hwrote
    intro d hd
    apply enter_facing hd
    intro e he
    apply step_facing he
    intro f hf
    apply (ty_yields (.inl onType) hwrote.2.1).bind hf.node_eq
    intro ty hty
    exact leave_under hf.under (.pure ⟨rfl, .intro isMarker hty⟩)

/-! ## Literals -/

/-- The text of a callee is that of its place in the source. -/
theorem calleeText_yields {callee arguments : Phrase} :
    Yields l.calleeText (· = l.textOf callee.node.span)
      (group .callExpression [callee, arguments]) := by
  intro d hd
  apply firstChild_facing hd
  intro e he
  apply text_facing he.node_eq
  exact leave_under he.under (.pure ⟨rfl, rfl⟩)

/-- A literal is a word, or the call of a type variable. -/
theorem literal_yields (hphrase : phrase.IsExpr) (hwrote : l.Wrote phrase) :
    Yields l.literal (LowersLiteral l phrase) phrase := by
  intro d hd
  apply location_bind
  intro a ha
  rw [hd] at ha
  apply text_facing hd
  apply kind_facing hd
  cases hphrase with
  | @number token isNumber =>
    have htext : l.textOf (ofToken .number token).node.span = token.text :=
      textOf_written (wrote_ofToken.mp hwrote) (by simp [isNumber])
    rw [htext]
    cases hread : Text.readInt64? token.text.toList with
    | none => exact refuse_facing
    | some value => exact .pure ⟨rfl, .number isNumber ha hread⟩
  | @boolean token isBoolean =>
    have htext : l.textOf (ofToken .boolean token).node.span = token.text := by
      apply textOf_written (wrote_ofToken.mp hwrote)
      rcases isBoolean with hkind | hkind <;> simp [hkind]
    rw [htext]
    exact .pure ⟨rfl, .boolean isBoolean ha⟩
  | none isNone => exact .pure ⟨rfl, .none isNone ha⟩
  | @call callee opening items closing onCallee isOpening commas onItems isClosing =>
    apply calleeText_yields.bind hd
    rintro _ rfl
    split
    · next htext =>
      exact .pure ⟨rfl, .typeVar onCallee htext (.intro isOpening commas onItems isClosing) ha⟩
    · exact refuse_facing
  | @comprehension kind _ _ _ _ _ _ _ isOpening | @filtered kind _ _ _ _ _ _ _ _ _ isOpening =>
    cases kind <;> first | exact refuse_facing | cases isOpening
  | _ => exact refuse_facing

/-! ## Calls -/

/-- The look at type arguments stays among the parts of the callee. -/
theorem areTypes_stays {limit : Nat} {found : Bool} (hd : c.Under d) :
    OnSuccess (l.areTypes limit found) d fun _ last => c.Under last := by
  induction limit generalizing d found with
  | zero => exact .throw trivial
  | succ limit ih =>
    apply (nextSibling_under hd).onSuccess.bind
    intro moved e he
    cases moved with
    | false => exact .pure he
    | true =>
      refine .bind_runs (runs_isToken "]" e) ?_
      split
      · exact .pure he
      · have hself : e.node = Phrase.node ⟨e.node, []⟩ := rfl
        apply kind_facing hself
        split
        · exact ih he
        · exact ih he
        · exact ih he
        · refine .bind_runs (runs_isToken "," e) ?_
          split
          · exact ih he
          · exact .pure he
        · exact .pure he

/-- Type arguments stand behind a name and an opening bracket. -/
theorem typeArguments_facing {object second : Phrase} {more : List Phrase}
    (h : c.Facing (object :: second :: more) d) :
    OnSuccess (andAlso (andAlso (isAt .variableName) (l.stepTo "[")) (l.areTypes l.limit false)) d
      fun generic last => c.Under last ∧
        (generic = true → object.kind = .variableName ∧ l.reads second.node "[" = true) := by
  have hname : OnSuccess (andAlso (isAt .variableName) (l.stepTo "[")) d fun opened last =>
      c.Under last ∧
        (opened = true → object.kind = .variableName ∧ l.reads second.node "[" = true) := by
    apply isAt_facing h.node_eq
    split
    · next hkind =>
      apply nextSibling_facing h
      intro e he
      have hruns := runs_isToken (l := l) "[" e
      rw [he.node_eq] at hruns
      exact .runs hruns ⟨he.under, fun hopens => ⟨of_decide_eq_true hkind, hopens⟩⟩
    · exact .pure ⟨h.under, nofun⟩
  apply hname.bind
  rintro opened e ⟨he, hopened⟩
  split
  · next hopens =>
    exact (areTypes_stays he).mono fun _ _ hlast => ⟨hlast, fun _ => hopened hopens⟩
  · exact .pure ⟨he, nofun⟩

/-- A callee with type arguments is a type. -/
theorem genericCallee_yields (hphrase : phrase.IsExpr) (hwrote : l.Wrote phrase) :
    Yields l.genericCallee (fun generic => ∀ entry ∈ generic,
      phrase.kind = .memberExpression ∧ LowersTy phrase (.object entry.1 entry.2)) phrase := by
  intro d hd
  apply isAt_andAlso_facing hd
  · intro hkind
    cases hphrase with
    | @property object dot name onObject isDot isName =>
      simp only [wrote_group, List.forall_mem_cons, wrote_ofToken] at hwrote
      apply firstChild_facing hd
      intro e he
      apply text_facing he.node_eq
      apply (typeArguments_facing he).bind
      rintro generic f ⟨hf, hgeneric⟩
      apply leave_under hf
      split
      · next htrue =>
        have hdot := (hgeneric htrue).2
        rw [reads_ofToken hwrote.2.1 (by rw [isDot]; rfl) rfl] at hdot
        exact absurd hdot (by decide)
      · exact .pure ⟨rfl, by simp⟩
    | @index object opening inside closing onObject isOpening marks onInside isClosing =>
      simp only [wrote_group, List.forall_mem_cons, wrote_ofToken, List.cons_append,
        List.mem_append, List.mem_singleton, or_imp, forall_and, forall_eq] at hwrote
      obtain ⟨hobject, hopening, hinside, hclosing⟩ := hwrote
      apply firstChild_facing hd
      intro e he
      apply text_facing he.node_eq
      apply (typeArguments_facing he).bind
      rintro generic f ⟨hf, hgeneric⟩
      apply leave_under hf
      split
      · next htrue =>
        rcases onObject.eq_name (hgeneric htrue).1 with ⟨name, isName, rfl⟩
        apply enter_facing hd
        intro e he
        apply step_facing he
        intro f hf
        apply (typeList_facing (fun _ => ty_yields) isName isOpening marks onInside isClosing
          hinside hclosing hf).bind
        rintro tys last ⟨hlast, htys⟩
        rw [← textOf_name isName hobject] at htys
        apply leave_under hlast
        refine .pure ⟨rfl, ?_⟩
        rintro entry ⟨⟩
        exact ⟨rfl, htys⟩
      · exact .pure ⟨rfl, by simp⟩
    | comprehension isOpening | filtered isOpening =>
      cases hkind
      cases isOpening
    | _ => cases hkind
  · intro _
    exact .pure ⟨rfl, by simp⟩

end Lowering
end Offside
