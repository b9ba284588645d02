import Offside.Proofs.Lowering.ComesBack
import Offside.Proofs.Lowering.NamedTypes
import Offside.Proofs.Lowering.Names
import Offside.Proofs.Parsing.Contents
import Offside.Proofs.Writing.LoweredTypes
import Offside.Proofs.Writing.RoundTrip

/-!
# Reading back the texts of types

Where a source has a type, the text of this type can be written in a declaration.  The scanner gives
one token for each word of it, the parser a tree that stands for the type that the words spell, and
the walk over types gives this type again.  It is the type from the start, unless a class without
type arguments in it has the name of another type; empty brackets make such classes.

Main definitions:

- `declarationOf`: a declaration with the text of a type.
- `typeAt?`: the type at a place of a source.

Main results:

- Theorem `SpellsTy.readsBack`: what spells a type is read back as the type.
- Theorem `parse_declaration`: the tree of a declaration.
- Theorem `type_readsBack`: the round trip.
-/

namespace Offside

open TokenStream (ahead)

/-! ## Written types are read back -/

section Forms

variable {source : Source}

theorem readsTy_name {name : String} (named : IsName name) :
    ReadsNode source .primary (StandsForTy source · (Lowering.typeOfName name)) [name] := by
  refine .of_primary (readable_name named) rfl ?_ .name
  intro token after hkind
  exact .bind (.currentKind_eq hkind) .leaf

theorem readsTy_none : ReadsNode source .primary (StandsForTy source · .none) ["None"] := by
  have hword : Readable "None" .noneWord := readable_reserved (by decide)
  refine .of_primary hword rfl ?_ .none
  intro token after hkind
  exact .bind (.currentKind_eq hkind) .leaf

/-- A list of one type. -/
theorem readsTy_list {element : Ty} {words : List String}
    (h : ReadsNode source .primary (StandsForTy source · element) words) :
    ReadsNode source .primary (StandsForTy source · (.list element)) ("[" :: (words ++ ["]"])) := by
  have hrow := Row.cons h .nil
  rw [List.append_nil] at hrow
  refine .array hrow ?_
  intro opening closing nodes hopening hnodes hclosing
  cases hnodes with
  | cons helement hmore =>
    cases hmore
    exact .list hopening helement hclosing

/-- A name with types in brackets. -/
theorem readsTy_object {name : String} {tys : List Ty} {words : List String} (named : IsName name)
    (h : Row source (StandsForTy source) tys words) :
    ReadsNode source .primary (StandsForTy source · (.object name tys))
      (name :: "[" :: (words ++ ["]"])) := by
  have hname : ReadsNode source .primary
      (fun node => ∃ span, node = .leaf .variableName span ∧ Covers source span name.toList)
      [name] := by
    refine .of_primary (readable_name named) rfl ?_ fun hcovers => ⟨_, rfl, hcovers⟩
    intro token after hkind
    exact .bind (.currentKind_eq hkind) .leaf
  refine ReadsNode.index hname h ?_
  rintro _ opening closing nodes ⟨span, rfl, hcovers⟩ hopening hnodes hclosing
  exact .object hcovers hopening hnodes hclosing

end Forms

mutual

/-- The words that spell a type are read back as the type. -/
theorem SpellsTy.readsBack {ty : Ty} {words : List String} (h : SpellsTy ty words)
    (source : Source) : ReadsNode source .primary (StandsForTy source · ty) words := by
  match h with
  | .name named => exact readsTy_name named
  | .none => exact readsTy_none
  | .list onElement => exact readsTy_list (onElement.readsBack source)
  | .object named onFirst onMore =>
    have hrow := Row.cons (onFirst.readsBack source) (onMore.row source)
    have hobject := readsTy_object named hrow
    rwa [List.append_assoc] at hobject

theorem SpellsMoreTys.row {tys : List Ty} {words : List String} (h : SpellsMoreTys tys words)
    (source : Source) : RowMore source (StandsForTy source) tys words := by
  match h with
  | .nil => exact .nil
  | .cons onNext onMore => exact .cons (onNext.readsBack source) (onMore.row source)

end

/-! ## Declarations with a type -/

/-- The source of a declaration of a variable with a type. -/
def declarationOf (name : String) (ty : Ty) : Source :=
  (name ++ ": " ++ ty.text ++ " = None").toList

/-- The tree of such a declaration. -/
def declarationTree (source : Source) (name colon mark value : Span) (type : SyntaxNode) :
    SyntaxNode :=
  ⟨.script, ⟨0, Source.byteSize source⟩, [.branch .assignStatement
    [.leaf .variableName name, .branch .typeDef [.leaf .punctuation colon, type],
      .leaf .assignOp mark, .leaf .none value]]⟩

theorem readable_assignment : Readable "=" .assignment :=
  readable_of_mark (readsAs_mark rfl (fun _ => rfl) (fun _ => rfl) fun _ => rfl)
    ⟨_, _, rfl, by decide⟩ (by decide)

/-- The text of a declaration is made up of its words. -/
theorem renders_declaration {name : String} {ty : Ty} {words : List String} (hname : IsName name)
    (hty : ty.Named) (hwords : MadeUp ty.text.toList words) :
    Renders (name :: ":" :: (words ++ ["=", "None"])) (declarationOf name ty) := by
  have hvalue : Renders ["=", "None"] (' ' :: line ["=", "None"]) := by
    refine .blank ?_ (renders_line (.cons readable_assignment (.fixed (by decide) .nil)))
    rintro c ⟨rfl⟩
    rfl
  have htype : Renders (words ++ ["=", "None"])
      (' ' :: (ty.text.toList ++ ' ' :: line ["=", "None"])) := by
    refine .blank ?_ (hwords _ _ hvalue (by rintro c ⟨rfl⟩; rfl))
    obtain ⟨first, behind, hchars, hfirst⟩ := hty.starts
    rw [hchars]
    rintro c ⟨rfl⟩
    exact hfirst
  have hcolon : Readable ":" .colon := readable_mark (by decide)
  have hmarked := Renders.word hcolon (hcolon.readsBefore (ends_cons (by decide) _)) htype
  have hall := Renders.word (readable_name hname)
    ((readable_name hname).readsBefore (ends_cons (by decide) _)) hmarked
  have htext : declarationOf name ty = name.toList ++
      (":".toList ++ ' ' :: (ty.text.toList ++ ' ' :: line ["=", "None"])) := by
    simp [declarationOf, line]
  rw [htext]
  exact hall

section Reading

variable {source : Source} {fuel : Nat} {after : TokenStream}

/-- The word `None` in front of the end of the line is an expression. -/
theorem Runs.noneValue {value lineEnd : Token} (hvalue : value.kind = .noneWord)
    (hline : lineEnd.kind = .newline) :
    Runs ((parserOf source).readWithin (fuel + 2) (.expression .lowest))
      (ahead [value, lineEnd] after) (.leaf .none value.span) (ahead [lineEnd] after) := by
  have hstart : Grammar.standard.expression value.kind = some .primary := by
    rw [hvalue]
    rfl
  have hprimary : Runs (parserOf source).primary (ahead [value, lineEnd] after)
      (.leaf .none value.span) (ahead [lineEnd] after) :=
    .bind (.currentKind_eq hvalue) .leaf
  have hstop : pull lineEnd.kind ≤ Power.lowest.rank := by
    rw [hline]
    decide
  exact ReadsTo.runs (.of_form hstart hprimary) hstop

/-- A name in front of a colon is an expression. -/
theorem Runs.declaredName {name colon : Token} (hname : name.kind = .identifier)
    (hcolon : colon.kind = .colon) (tokens : List Token) :
    Runs ((parserOf source).readWithin (fuel + 2) (.expression .lowest))
      (ahead (name :: colon :: tokens) after) (.leaf .variableName name.span)
      (ahead (colon :: tokens) after) := by
  have hstop : pull colon.kind ≤ Power.lowest.rank := by
    rw [hcolon]
    decide
  exact (ReadsTo.of_name source .lowest fuel (colon :: tokens) after hname).runs hstop

/-- A name with a type and the value `None` is a statement. -/
theorem Runs.declaration {name colon mark value lineEnd : Token} {inside : List Token}
    {node : SyntaxNode} (hname : name.kind = .identifier) (hcolon : colon.kind = .colon)
    (hmark : mark.kind = .assignment) (hvalue : value.kind = .noneWord)
    (hline : lineEnd.kind = .newline)
    (htype : Runs ((parserOf source).readWithin (fuel + 2) (.expression .lowest))
      (ahead inside (ahead [mark, value, lineEnd] after)) node
      (ahead [mark, value, lineEnd] after)) :
    Runs ((parserOf source).readWithin (fuel + 3) (.form .statement))
      (ahead (name :: colon :: inside) (ahead [mark, value, lineEnd] after))
      (.branch .assignStatement [.leaf .variableName name.span,
        .branch .typeDef [.leaf .punctuation colon.span, node], .leaf .assignOp mark.span,
        .leaf .none value.span]) after := by
  have hstart : Grammar.standard.statement name.kind = none := by
    rw [hname]
    rfl
  have hassigned : Runs (Parse.optionally (· = .assignment) (do
      let mark ← Parse.leaf .assignOp
      let value ← (parserOf source).readWithin (fuel + 2) (.expression .lowest)
      return [mark, value])) (ahead [mark, value, lineEnd] after)
      [.leaf .assignOp mark.span, .leaf .none value.span] (ahead [lineEnd] after) :=
    .optionally_take (· = .assignment) (decide_eq_true hmark)
      (.bind .leaf (.bind (.noneValue hvalue hline) (.pure _ _)))
  refine .bind .currentKind ?_
  have hnone : (parserOf source).grammar.statement
      (ahead (name :: colon :: inside) (ahead [mark, value, lineEnd] after)).current.kind = none :=
    hstart
  rw [hnone]
  refine .bind (.declaredName hname hcolon inside) (.bind (.currentKind_eq hcolon) ?_)
  refine .bind (.bind (.expectLeaf hcolon) (.bind htype (.pure _ _))) (.bind hassigned ?_)
  exact .bind (.pure _ _) (.bind (.expect hline) (.pure _ _))

/-- The tokens of a declaration with a type, and of the end of the line and the file, are parsed as
one statement. -/
theorem parse_declaration {name : String} {ty : Ty} {words : List String} (hname : IsName name)
    (h : ReadsNode source .primary (StandsForTy source · ty) words) {tokens : List Token}
    {lineEnd fileEnd : Token}
    (htokens : List.Forall₂ (TokenOf source) (name :: ":" :: (words ++ ["=", "None"])) tokens)
    (hline : lineEnd.kind = .newline) (hfile : fileEnd.kind = .eof) :
    ∃ nameSpan colon mark value node, StandsForTy source node ty ∧
      parse (tokens ++ [lineEnd, fileEnd]) source =
        .ok (declarationTree source nameSpan colon mark value node) := by
  rcases tokens_cons htokens with ⟨nameToken, rest, rfl, hnameToken, hrest⟩
  rcases tokens_cons hrest with ⟨colon, rest, rfl, hcolon, hrest⟩
  rcases tokens_append hrest with ⟨inside, rest, rfl, hinside, hrest⟩
  rcases tokens_cons hrest with ⟨mark, rest, rfl, hmark, hrest⟩
  rcases tokens_singleton hrest with ⟨value, rfl, hvalue⟩
  have hnameKind := hnameToken.kind_eq (readable_name hname)
  have hcolonKind : colon.kind = .colon := hcolon.kind_eq (readable_mark (by decide))
  have hmarkKind := hmark.kind_eq readable_assignment
  have hvalueKind : value.kind = .noneWord := hvalue.kind_eq (readable_reserved (by decide))
  rcases nesting_eq (nameToken :: colon :: inside) (ahead [mark, value, lineEnd] ⟨fileEnd, []⟩)
    with ⟨fuel, hfuel, henough⟩
  rw [List.length_cons, List.length_cons] at henough
  obtain ⟨fuel, rfl⟩ : ∃ n, fuel = n + 2 := ⟨fuel - 2, by omega⟩
  have hstop : pull mark.kind ≤ Power.lowest.rank := by
    rw [hmarkKind]
    decide
  obtain ⟨node, hnode, hread⟩ := h.read (ahead [mark, value, lineEnd] ⟨fileEnd, []⟩) .lowest
    (fuel + 2) hinside (Level.above_lowest .primary) hstop (by omega)
  refine ⟨nameToken.span, colon.span, mark.span, value.span, node, hnode, ?_⟩
  have hstatement : Runs ((parserOf source).read (.form .statement))
      (ahead (nameToken :: colon :: inside) (ahead [mark, value, lineEnd] ⟨fileEnd, []⟩))
      (.branch .assignStatement [.leaf .variableName nameToken.span,
        .branch .typeDef [.leaf .punctuation colon.span, node], .leaf .assignOp mark.span,
        .leaf .none value.span]) ⟨fileEnd, []⟩ := by
    rw [Runs, Parser.read, hfuel]
    exact Runs.declaration hnameKind hcolonKind hmarkKind hvalueKind hline hread
  have hfirst : nameToken.kind ≠ .eof := by
    rw [hnameKind]
    decide
  have hscript := Runs.script hstatement hfirst hfile
  have hstream : TokenStream.ofTokens (nameToken :: colon :: (inside ++ [mark, value]) ++
      [lineEnd, fileEnd]) (Source.byteSize source) =
      ahead (nameToken :: colon :: inside) (ahead [mark, value, lineEnd] ⟨fileEnd, []⟩) := by
    rw [← TokenStream.ahead_append, ← TokenStream.ofTokens_eq hfile _ (Source.byteSize source)]
    simp
  rw [parse, hstream]
  exact congrArg (fun outcome => outcome.bind fun result => .ok result.1) hscript

end Reading

/-! ## The round trip -/

/-- The type at a place in the tree of a source, if the walk over types accepts it. -/
def typeAt? (source : Source) (path : List Nat) : Option Ty := do
  let tokens ← (tokenize source).toOption
  let tree ← (parse tokens source).toOption
  let c ← (Cursor.top tree).descend? path
  let result ← ((Lowering.ofTree source tree).ty c).toOption
  return result.1

theorem toOption_eq_some {α : Type} {outcome : Outcome α} {value : α} :
    outcome.toOption = some value ↔ outcome = .ok value := by
  cases outcome <;> simp [Except.toOption]

theorem typeAt?_eq_some {source : Source} {path : List Nat} {ty : Ty} :
    typeAt? source path = some ty ↔ ∃ tokens tree c last, tokenize source = .ok tokens ∧
      parse tokens source = .ok tree ∧ (Cursor.top tree).descend? path = some c ∧
      Runs (Lowering.ofTree source tree).ty c ty last := by
  simp only [typeAt?, Option.bind_eq_bind, Option.bind_eq_some_iff, toOption_eq_some, Runs,
    Prod.exists, Option.pure_def, Option.some.injEq]
  constructor
  · rintro ⟨tokens, htokens, tree, hparse, c, hc, ty, last, hruns, rfl⟩
    exact ⟨tokens, tree, c, last, htokens, hparse, hc, hruns⟩
  · rintro ⟨tokens, tree, c, last, htokens, hparse, hc, hruns⟩
    exact ⟨tokens, htokens, tree, hparse, c, hc, ty, last, hruns, rfl⟩

/-- The type at a place of a source is writable, and its classes have names. -/
theorem named_of_typeAt? {source : Source} {path : List Nat} {ty : Ty}
    (h : typeAt? source path = some ty) : ty.Named ∧ ty.Writable := by
  obtain ⟨tokens, tree, c, last, htokens, hparse, hc, hruns⟩ := typeAt?_eq_some.mp h
  have hfilled : tree.Filled := fun node hnode =>
    (allHaveContent_of_parse htokens hparse node hnode).children_ne
  have hcovers := (Lowering.covers_ofTree source hfilled).descend hc
  have hnames := (Lowering.names_of_parse htokens hparse).descend hc
  exact (Meets.of_runs (Lowering.ty_named hcovers hnames) hruns).2

/-- A declaration with the text of a type has the type that the text spells. -/
theorem typeAt?_declaration {name : String} {ty : Ty} (hname : IsName name) (hty : ty.Named) :
    typeAt? (declarationOf name ty) [0, 1, 1] = some ty.reread := by
  obtain ⟨words, hspells, hwords⟩ := hty.inWords
  obtain ⟨first, more, hchars, hfirst, -⟩ := hname.characters
  have htext : declarationOf name ty =
      first :: (more ++ (": " ++ ty.text ++ " = None").toList) := by
    simp [declarationOf, hchars]
  obtain ⟨tokens, lineEnd, fileEnd, htokenize, hline, hfile, htokens⟩ :=
    tokenize_renders (renders_declaration hname hty hwords) (List.cons_ne_nil _ _) htext
      (not_mem_of_startsWord hfirst)
  obtain ⟨nameSpan, colon, mark, value, node, hnode, hparse⟩ :=
    parse_declaration hname (hspells.readsBack (declarationOf name ty)) htokens hline hfile
  have hsize : node.size ≤
      8 * ((declarationTree (declarationOf name ty) nameSpan colon mark value node).size + 1) := by
    simp only [declarationTree, SyntaxNode.size, SyntaxNode.size_branch, SyntaxNode.size_leaf,
      SyntaxNode.sizes_cons, SyntaxNode.sizes_nil]
    omega
  exact typeAt?_eq_some.mpr ⟨_, _, _, _, htokenize, hparse, rfl,
    hnode.lowers _ _ rfl hsize hsize _⟩

/-- Wherever the walk over types accepts what a source has, the text of the type that it gives can
stand in a declaration, and the type of this declaration is the same: unless there is a class
without type arguments in it that has the name of another type. -/
theorem type_readsBack {source : Source} {path : List Nat} {ty : Ty} {name : String}
    (h : typeAt? source path = some ty) (hname : IsName name) :
    typeAt? (declarationOf name ty) [0, 1, 1] = some ty.reread ∧
      (ty.reread = ty ↔ ∀ own ∈ Ty.ownNames, Ty.plain own ∉ ty.components) :=
  ⟨typeAt?_declaration hname (named_of_typeAt? h).1, Ty.reread_eq_iff (named_of_typeAt? h).2⟩

/-- Commas between type arguments may be missing, and the text of the type has them. -/
theorem type_readsBack_list :
    typeAt? "def f(a: [C[int None,]]): pass".toList [0, 2, 2, 1] =
        some (.list (.object "C" [.num, .none])) ∧ IsName "x" ∧
      declarationOf "x" (.list (.object "C" [.num, .none])) = "x: [C[int, None]] = None".toList ∧
      typeAt? (declarationOf "x" (.list (.object "C" [.num, .none]))) [0, 1, 1] =
        some (.list (.object "C" [.num, .none])) := by
  have htype : typeAt? "def f(a: [C[int None,]]): pass".toList [0, 2, 2, 1] =
      some (.list (.object "C" [.num, .none])) := by decide +kernel
  have hname : IsName "x" := (isName_iff rfl).mpr (by decide)
  obtain ⟨hback, hsame⟩ := type_readsBack htype hname
  have hreread : Ty.reread (.list (.object "C" [.num, .none])) =
      .list (.object "C" [.num, .none]) :=
    hsame.mpr (by simp [Ty.ownNames, Ty.components, Ty.componentsOf, Ty.plain])
  exact ⟨htype, hname, by decide, hreread ▸ hback⟩

/-- With empty brackets, a class can have the name `int`; its text is that of the type of
numbers. -/
theorem type_readsBack_emptyBrackets :
    typeAt? "x: int[] = None".toList [0, 1, 1] = some (.plain "int") ∧
      declarationOf "x" (.plain "int") = "x: int = None".toList ∧
      typeAt? (declarationOf "x" (.plain "int")) [0, 1, 1] = some .num ∧
      Ty.num ≠ .plain "int" := by
  have htype : typeAt? "x: int[] = None".toList [0, 1, 1] = some (.plain "int") := by
    decide +kernel
  have hname : IsName "x" := (isName_iff rfl).mpr (by decide)
  have hint : IsName "int" := Ty.isName_of_mem (by decide)
  exact ⟨htype, by decide, typeAt?_declaration hname ⟨hint, trivial⟩, nofun⟩

end Offside
