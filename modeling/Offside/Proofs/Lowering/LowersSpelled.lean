import Offside.Proofs.Ast.Everywhere
import Offside.Proofs.Lowering.LowersPrograms

/-!
# Parsed programs are spelled out

The names in a program are words of its source, and the words that are names consist of letters,
digits and underscores.  So a name in a parsed program never has the mark that is part of the new
names of items.  Nor has a source a way to spell the creation of an object.

Main results:

- Theorem `Lowers.spelled`: an expression that a phrase lowers to is spelled out.
- Theorem `parseProgram_spelled`: so are all expressions of a parsed program.
-/

namespace Offside

open Phrase Lowering

variable {l : Lowering}

/-! ## Expressions -/

/-- A name has no mark of new names. -/
theorem Token.WrittenIn.not_mem {source : Source} {token : Token} (h : token.WrittenIn source)
    (isName : token.kind = .identifier) : '$' ∉ token.text.toList := fun hmem =>
  absurd (h.name isName '$' hmem) (by decide)

/-- A literal is spelled out. -/
theorem spelled_literal {a : Location} {value : Literal Location} :
    (Expr.literal a value).All Expr.Spelled := trivial

/-- A call is spelled out if what it is made of is. -/
theorem SortsCall.spelled {a : Location} {callee result : Expr Location}
    {arguments : List (Expr Location)} (h : SortsCall a callee arguments result)
    (hcallee : callee.All Expr.Spelled) (harguments : ∀ e ∈ arguments, e.All Expr.Spelled) :
    result.All Expr.Spelled := by
  cases h with
  | method => exact ⟨trivial, hcallee.2, Expr.allOf_iff.mpr harguments⟩
  | builtin1 => exact ⟨trivial, harguments _ List.mem_cons_self⟩
  | builtin2 =>
    simp only [List.forall_mem_cons] at harguments
    exact ⟨trivial, harguments.1, harguments.2.1⟩
  | function => exact ⟨trivial, Expr.allOf_iff.mpr harguments⟩

/-- What all values of a row have, if each comes from a phrase of the row. -/
theorem forall_mem_of_zip {α : Type} {P : α → Prop} {parts : List Phrase} {values : List α}
    (hlength : parts.length = values.length)
    (h : ∀ {part value}, (part, value) ∈ parts.zip values → l.Wrote part → P value)
    (hwrote : ∀ part ∈ parts, l.Wrote part) : ∀ value ∈ values, P value := by
  intro value hvalue
  rw [← List.map_snd_zip (Nat.le_of_eq hlength.symm)] at hvalue
  rcases List.mem_map.mp hvalue with ⟨_, hpair, rfl⟩
  exact h hpair (hwrote _ (List.of_mem_zip hpair).1)

theorem forall_mem_of_forall₂ {α : Type} {P : α → Prop} {R : Phrase → α → Prop}
    {parts : List Phrase} {values : List α} (h : List.Forall₂ R parts values)
    (hone : ∀ part value, R part value → l.Wrote part → P value)
    (hwrote : ∀ part ∈ parts, l.Wrote part) : ∀ value ∈ values, P value :=
  forall_mem_of_zip h.length_eq (fun hpair => hone _ _ ((List.forall₂_iff_zip.mp h).2 hpair))
    hwrote

theorem wrote_between {items : List Phrase} (h : ∀ part ∈ items, l.Wrote part) :
    ∀ part ∈ between items, l.Wrote part :=
  fun part hpart => h part (List.mem_of_mem_filter hpart)

/-- An expression that a phrase lowers to is spelled out. -/
theorem Lowers.spelled {phrase : Phrase} {e : Expr Location} (h : Lowers l phrase e)
    (hwrote : l.Wrote phrase) : e.All Expr.Spelled := by
  induction h with
  | literal => exact spelled_literal
  | id isName => exact (wrote_ofToken.mp hwrote).not_mem isName
  | uniOp _ _ _ _ ih | lookup _ _ _ _ ih => exact ⟨trivial, ih (wrote_group.mp hwrote _ (by simp))⟩
  | binOp _ _ _ _ _ ihLeft ihRight =>
    exact ⟨trivial, ihLeft (wrote_group.mp hwrote _ (by simp)),
      ihRight (wrote_group.mp hwrote _ (by simp))⟩
  | ternary _ _ _ _ _ _ ihValue ihCondition ihOtherwise =>
    exact ⟨trivial, ihValue (wrote_group.mp hwrote _ (by simp)),
      ihCondition (wrote_group.mp hwrote _ (by simp)),
      ihOtherwise (wrote_group.mp hwrote _ (by simp))⟩
  | parenthesized _ _ _ ih => exact ih (wrote_group.mp hwrote _ (by simp))
  | @listLiteral opening items closing es a _ _ hlength _ _ _ ih =>
    have hitems (part : Phrase) (hpart : part ∈ items) : l.Wrote part :=
      wrote_group.mp hwrote part (by simp [hpart])
    exact ⟨trivial, Expr.allOf_iff.mpr (forall_mem_of_zip hlength ih (wrote_between hitems))⟩
  | comprehension _ _ _ _ _ _ _ _ _ ihResult ihIterable =>
    exact ⟨trivial, ihIterable (wrote_group.mp hwrote _ (by simp)),
      ihResult (wrote_group.mp hwrote _ (by simp))⟩
  | filtered _ _ _ _ _ _ _ _ _ _ _ ihResult ihIterable ihFilter =>
    exact ⟨trivial, ihIterable (wrote_group.mp hwrote _ (by simp)),
      ihFilter (wrote_group.mp hwrote _ (by simp)), ihResult (wrote_group.mp hwrote _ (by simp))⟩
  | index _ _ _ _ _ _ _ _ ihObject ihPosition =>
    exact ⟨trivial, ihObject (wrote_group.mp hwrote _ (by simp)),
      ihPosition (wrote_group.mp hwrote _ (by simp))⟩
  | @genericCall callee opening items closing name tys es a _ _ _ _ hlength _ _ _ ih =>
    have hlist : l.Wrote (group .argList
        (ofToken .punctuation opening :: items ++ [ofToken .punctuation closing])) :=
      wrote_group.mp hwrote _ (by simp)
    have hitems (part : Phrase) (hpart : part ∈ items) : l.Wrote part :=
      wrote_group.mp hlist part (by simp [hpart])
    exact ⟨trivial, Expr.allOf_iff.mpr (forall_mem_of_zip hlength ih (wrote_between hitems))⟩
  | @call callee opening items closing e es result a _ _ _ hlength _ _ _ sorts ihCallee ih =>
    have hlist : l.Wrote (group .argList
        (ofToken .punctuation opening :: items ++ [ofToken .punctuation closing])) :=
      wrote_group.mp hwrote _ (by simp)
    have hitems (part : Phrase) (hpart : part ∈ items) : l.Wrote part :=
      wrote_group.mp hlist part (by simp [hpart])
    exact sorts.spelled (ihCallee (wrote_group.mp hwrote _ (by simp)))
      (forall_mem_of_zip hlength ih (wrote_between hitems))
  | typeVar => exact spelled_literal

/-! ## Statements -/

mutual

/-- A statement that a phrase lowers to is spelled out. -/
theorem LowersStmt.spelled {phrase : Phrase} {s : Stmt Location} (h : LowersStmt l phrase s)
    (hwrote : l.Wrote phrase) : s.All Expr.Spelled := by
  match h with
  | .assign _ _ onValue _ | .expr onValue _ | .return _ onValue _ =>
    exact onValue.spelled (wrote_group.mp hwrote _ (by simp))
  | .fieldAssign onTarget _ onValue _ =>
    exact ⟨(onTarget.spelled (wrote_group.mp hwrote _ (by simp))).2,
      onValue.spelled (wrote_group.mp hwrote _ (by simp))⟩
  | .indexAssign onTarget _ onValue _ =>
    obtain ⟨-, hobject, hposition⟩ := onTarget.spelled (wrote_group.mp hwrote _ (by simp))
    exact ⟨hobject, hposition, onValue.spelled (wrote_group.mp hwrote _ (by simp))⟩
  | .returnNone .. => exact spelled_literal
  | .pass .. | .continue .. | .break .. => trivial
  | .cond _ onCondition onBody onTail _ =>
    simp only [wrote_group, List.forall_mem_cons] at hwrote
    obtain ⟨-, hcondition, hbody, htail⟩ := hwrote
    exact ⟨onCondition.spelled hcondition, onBody.spelled hbody, onTail.spelled htail⟩
  | .while _ onCondition onBody _ =>
    exact ⟨onCondition.spelled (wrote_group.mp hwrote _ (by simp)),
      onBody.spelled (wrote_group.mp hwrote _ (by simp))⟩
  | .for _ _ _ onIterable onBody onElse _ =>
    simp only [wrote_group, List.forall_mem_cons] at hwrote
    obtain ⟨-, -, -, hiterable, hbody, htail⟩ := hwrote
    exact ⟨onIterable.spelled hiterable, onBody.spelled hbody, onElse.spelled htail⟩

theorem LowersBody.spelled {phrase : Phrase} {block : List (Stmt Location)}
    (h : LowersBody l phrase block) (hwrote : l.Wrote phrase) :
    Stmt.AllOf Expr.Spelled block := by
  match h with
  | .intro _ hlength onParts =>
    exact Stmt.allOf_iff.mpr (forall_mem_of_zip hlength
      (fun hpair hpart => (onParts hpair).spelled hpart)
      (List.forall_mem_cons.mp (wrote_group.mp hwrote)).2)

theorem LowersElse.spelled {parts : List Phrase} {block : List (Stmt Location)}
    (h : LowersElse l parts block) (hwrote : ∀ part ∈ parts, l.Wrote part) :
    Stmt.AllOf Expr.Spelled block := by
  match h with
  | .nil => trivial
  | .else _ onBody => exact onBody.spelled (hwrote _ (by simp))

theorem LowersTail.spelled {parts : List Phrase} {block : List (Stmt Location)}
    (h : LowersTail l parts block) (hwrote : ∀ part ∈ parts, l.Wrote part) :
    Stmt.AllOf Expr.Spelled block := by
  match h with
  | .otherwise onElse => exact onElse.spelled hwrote
  | .elif _ onCondition onBody onTail _ =>
    simp only [List.forall_mem_cons] at hwrote
    obtain ⟨-, hcondition, hbody, htail⟩ := hwrote
    exact ⟨⟨onCondition.spelled hcondition, onBody.spelled hbody, onTail.spelled htail⟩, trivial⟩

end

/-! ## Declarations and programs -/

/-- A function is spelled out. -/
theorem LowersFunDef.spelled {phrase : Phrase} {fn : FunDef Location}
    (h : LowersFunDef l phrase fn) (hwrote : l.Wrote phrase) : fn.All Expr.Spelled := by
  rcases h with @⟨word, name, list, result, body, _, _, _, _, _, _, _, _, _, onBody, _⟩
  have hbody : l.Wrote body := wrote_group.mp hwrote body (by simp)
  rcases onBody with @⟨colon, before, behind, _, _, _, _, onStmts⟩
  have hbehind (part : Phrase) (hpart : part ∈ behind) : l.Wrote part :=
    wrote_group.mp hbody part (by simp [hpart])
  exact Stmt.allOf_iff.mpr
    (forall_mem_of_forall₂ onStmts (fun _ _ => LowersStmt.spelled) hbehind)

/-- The methods of a class are spelled out. -/
theorem LowersMember.spelled {phrase : Phrase} {members : List Lowering.ClassMember}
    (h : LowersMember l phrase members) (hwrote : l.Wrote phrase) :
    ∀ fn ∈ members.filterMap Lowering.ClassMember.method?, fn.All Expr.Spelled := by
  cases h with
  | field => exact nofun
  | method onFun =>
    rintro fn hfn
    obtain rfl := List.mem_singleton.mp hfn
    exact onFun.spelled hwrote
  | pass => exact nofun

/-- A class is spelled out, also if its constructor is not written. -/
theorem LowersClassDef.spelled {phrase : Phrase} {cls : ClassDef Location}
    (h : LowersClassDef l phrase cls) (hwrote : l.Wrote phrase) : cls.All Expr.Spelled := by
  rcases h with @⟨word, name, bases, colon, parts, generics, groups, a, _, _, _, _, onParts, _⟩
  have hbody : l.Wrote (group .body (ofToken .punctuation colon :: parts)) :=
    wrote_group.mp hwrote _ (by simp)
  have hgroups := forall_mem_of_forall₂ onParts (fun _ _ => LowersMember.spelled)
    (List.forall_mem_cons.mp (wrote_group.mp hbody)).2
  intro fn hfn
  rcases List.mem_append.mp hfn with hmethod | hdefault
  · rcases List.mem_filterMap.mp hmethod with ⟨member, hmember, hmethod⟩
    rcases List.mem_flatten.mp hmember with ⟨members, hmembers, hmember⟩
    exact hgroups members hmembers fn (List.mem_filterMap.mpr ⟨member, hmember, hmethod⟩)
  · split at hdefault
    · cases hdefault
    · obtain rfl := List.mem_singleton.mp hdefault
      trivial

/-- All expressions of a program that a tree lowers to are spelled out. -/
theorem LowersProgram.spelled {phrase : Phrase} {program : Program Location}
    (h : LowersProgram l phrase program) (hwrote : l.Wrote phrase) :
    program.All Expr.Spelled := by
  rcases h with @⟨before, behind, declarations, stmts, _, _, _, hwords, _, onBefore, onBehind⟩
  have hparts := hwrote.of_words hwords
  have hbefore (part : Phrase) (hpart : part ∈ before) : l.Wrote part :=
    hparts part (List.mem_append_left _ hpart)
  have hfuns := forall_mem_of_forall₂ (l := l)
    (P := fun declaration => ∀ fn ∈ declaration.fun?, fn.All Expr.Spelled) onBefore ?_ hbefore
  have hclasses := forall_mem_of_forall₂ (l := l)
    (P := fun declaration => ∀ cls ∈ declaration.cls?, cls.All Expr.Spelled) onBefore ?_ hbefore
  · exact {
      funs fn hfn := by
        rcases List.mem_filterMap.mp hfn with ⟨declaration, hdeclaration, hfn⟩
        exact hfuns declaration hdeclaration fn hfn
      classes cls hcls := by
        rcases List.mem_filterMap.mp hcls with ⟨declaration, hdeclaration, hcls⟩
        exact hclasses declaration hdeclaration cls hcls
      stmts := Stmt.allOf_iff.mpr (forall_mem_of_forall₂ onBehind (fun _ _ => LowersStmt.spelled)
        fun part hpart => hparts part (List.mem_append_right _ hpart)) }
  · rintro part _ (_ | onFun | onClass) hpart cls ⟨⟩
    exact onClass.spelled hpart
  · rintro part _ (_ | onFun | onClass) hpart fn ⟨⟩
    exact onFun.spelled hpart

/-- All expressions of a parsed program are spelled out. -/
theorem parseProgram_spelled {source : Source} {program : Program Location}
    (h : parseProgram source = .ok program) : program.All Expr.Spelled := by
  rcases parseProgram_lowers h with ⟨tokens, tree, -, -, hwrote, hprogram⟩
  exact hprogram.spelled hwrote

end Offside
