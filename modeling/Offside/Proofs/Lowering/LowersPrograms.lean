import Offside.Lowering.Declarations
import Offside.Proofs.Lowering.LowersStatements

/-!
# Programs as they are read

What phrases lower to as declarations, and the whole tree as a program; and the walks over
declarations and programs, which give what phrases lower to.

Main definitions:

- `LowersVarInit`, `LowersFunDef` and `LowersClassDef`: the declarations of phrases.
- `LowersProgram`: the program of a tree.

Main results:

- Theorem `program_yields`: the walk over a program.
- Theorem `parseProgram_lowers`: the tree of a source lowers to its program.
-/

namespace Offside

open Phrase

/-! ## Declarations -/

/-- A phrase is a variable with its type and first value. -/
inductive LowersVarInit (l : Lowering) : Phrase → VarInit Location → Prop
  | intro {name type mark value ty literal a} (isName : name.kind = .identifier)
      (onType : LowersTypeDef type ty) (isMark : mark.kind = .assignment)
      (onValue : LowersLiteral l value literal)
      (located : l.Locates (group .assignStatement
        [ofToken .variableName name, type, ofToken .assignOp mark, value]) a) :
      LowersVarInit l (group .assignStatement
        [ofToken .variableName name, type, ofToken .assignOp mark, value])
        ⟨a, name.text, ty, literal⟩

/-- Phrases are parameters, each with a type. -/
inductive LowersParameters : List Phrase → List Parameter → Prop
  | nil : LowersParameters [] []
  | cons {name type ty comma more parameters} (isName : name.kind = .identifier)
      (onType : LowersTypeDef type ty) (isComma : ∀ token ∈ comma, token.kind = .comma)
      (onMore : LowersParameters more parameters) :
      LowersParameters (ofToken .variableName name :: type :: (optionalMark comma ++ more))
        (⟨name.text, ty⟩ :: parameters)

/-- A phrase is a list of parameters in parentheses. -/
inductive LowersParamList : Phrase → List Parameter → Prop
  | intro {opening parts closing parameters} (isOpening : opening.kind = .openParen)
      (onParts : LowersParameters parts parameters) (isClosing : closing.kind = .closeParen) :
      LowersParamList (group .paramList
        (ofToken .punctuation opening :: parts ++ [ofToken .punctuation closing])) parameters

/-- The type of a result; without one it is that of `None`. -/
inductive LowersResult : Option Phrase → Ty → Prop
  | none : LowersResult none .none
  | some {type ty} (onType : LowersTypeDef type ty) : LowersResult (some type) ty

/-- A phrase is the body of a function: variables, and then statements. -/
inductive LowersFunBody (l : Lowering) :
    Phrase → List (VarInit Location) → List (Stmt Location) → Prop
  | intro {colon before behind inits stmts} (isColon : colon.kind = .colon)
      (onInits : List.Forall₂ (LowersVarInit l) before inits)
      (onStmts : List.Forall₂ (LowersStmt l) behind stmts) :
      LowersFunBody l (group .body (ofToken .punctuation colon :: (before ++ behind))) inits stmts

/-- A phrase is the definition of a function. -/
inductive LowersFunDef (l : Lowering) : Phrase → FunDef Location → Prop
  | intro {word name list result body parameters ret inits stmts a}
      (isDef : word.kind = .defWord) (isName : name.kind = .identifier)
      (onList : LowersParamList list parameters) (onResult : LowersResult result ret)
      (onBody : LowersFunBody l body inits stmts)
      (located : l.Locates (group .functionDefinition (ofToken .keyword word ::
        ofToken .variableName name :: list :: (Option.toList result ++ [body]))) a) :
      LowersFunDef l (group .functionDefinition (ofToken .keyword word ::
        ofToken .variableName name :: list :: (Option.toList result ++ [body])))
        ⟨a, name.text, parameters, ret, inits, stmts⟩

/-- A phrase is a base class, with the type parameters it brings. -/
inductive LowersBase : Phrase → List String → Prop
  | object {name} (isName : name.kind = .identifier) (isObject : name.text = "object") :
      LowersBase (ofToken .variableName name) []
  | generic {name opening inside closing names} (isName : name.kind = .identifier)
      (isGeneric : name.text = "Generic") (isOpening : opening.kind = .openBracket)
      (commas : CommasOnly inside)
      (onInside : List.Forall₂ (fun part name => ∃ token : Token, token.kind = .identifier ∧
        part = ofToken .variableName token ∧ name = token.text) (between inside) names)
      (isClosing : closing.kind = .closeBracket) :
      LowersBase (group .memberExpression (ofToken .variableName name ::
        ofToken .punctuation opening :: inside ++ [ofToken .punctuation closing])) names

/-- The base classes of a class, if there are any. -/
inductive LowersBases : Option Phrase → List String → Prop
  | none : LowersBases none []
  | some {opening items closing groups} (isOpening : opening.kind = .openParen)
      (commas : CommasOnly items) (onItems : List.Forall₂ LowersBase (between items) groups)
      (isClosing : closing.kind = .closeParen) :
      LowersBases (some (group .argList
        (ofToken .punctuation opening :: items ++ [ofToken .punctuation closing]))) groups.flatten

/-- A phrase in a class is a field, a method, or `pass`. -/
inductive LowersMember (l : Lowering) : Phrase → List Lowering.ClassMember → Prop
  | field {phrase init} (onInit : LowersVarInit l phrase init) :
      LowersMember l phrase [.field init]
  | method {phrase fn} (onFun : LowersFunDef l phrase fn) : LowersMember l phrase [.method fn]
  | pass {word} (isPass : word.kind = .passWord) :
      LowersMember l (group .passStatement [ofToken .keyword word]) []

/-- A phrase is the definition of a class. -/
inductive LowersClassDef (l : Lowering) : Phrase → ClassDef Location → Prop
  | intro {word name bases colon parts generics groups a} (isClass : word.kind = .classWord)
      (isName : name.kind = .identifier) (onBases : LowersBases bases generics)
      (isColon : colon.kind = .colon) (onParts : List.Forall₂ (LowersMember l) parts groups)
      (located : l.Locates (group .classDefinition (ofToken .keyword word ::
        ofToken .variableName name :: (Option.toList bases ++
          [group .body (ofToken .punctuation colon :: parts)]))) a) :
      LowersClassDef l (group .classDefinition (ofToken .keyword word ::
        ofToken .variableName name :: (Option.toList bases ++
          [group .body (ofToken .punctuation colon :: parts)])))
        ⟨a, name.text, generics, groups.flatten.filterMap Lowering.ClassMember.field?,
          groups.flatten.filterMap Lowering.ClassMember.method? ++
            if (groups.flatten.filterMap Lowering.ClassMember.method?).any
              (fun method => method.name = "__init__") then []
            else [Lowering.defaultInit a name.text generics]⟩

/-- A phrase is a declaration of a program. -/
inductive LowersDeclaration (l : Lowering) : Phrase → Lowering.Declaration → Prop
  | init {phrase init} (onInit : LowersVarInit l phrase init) :
      LowersDeclaration l phrase (.init init)
  | fun {phrase fn} (onFun : LowersFunDef l phrase fn) : LowersDeclaration l phrase (.fun fn)
  | cls {phrase cls} (onClass : LowersClassDef l phrase cls) :
      LowersDeclaration l phrase (.cls cls)

/-- A tree is a program: declarations, and then statements. -/
inductive LowersProgram (l : Lowering) : Phrase → Program Location → Prop
  | intro {phrase before behind declarations stmts a} (isScript : phrase.kind = .script)
      (children : phrase.node.children = (before ++ behind).map Phrase.node)
      (words : phrase.words = (before ++ behind).flatMap Phrase.words)
      (exact : ∀ part ∈ before ++ behind, part.Exact)
      (onBefore : List.Forall₂ (LowersDeclaration l) before declarations)
      (onBehind : List.Forall₂ (LowersStmt l) behind stmts) :
      LowersProgram l phrase ⟨a, declarations.filterMap Lowering.Declaration.init?,
        declarations.filterMap Lowering.Declaration.fun?,
        declarations.filterMap Lowering.Declaration.cls?, stmts⟩

/-! ## The end of a row -/

/-- A cursor at the first of some phrases in a row, or anywhere under the node if there is no
phrase left. -/
inductive Cursor.Awaits (c : Cursor) : Bool → List Phrase → Cursor → Prop
  | here {phrase phrases d} (h : c.Facing (phrase :: phrases) d) :
      Awaits c true (phrase :: phrases) d
  | none {d} (h : c.Under d) : Awaits c false [] d

namespace Lowering

open Walk

variable {l : Lowering} {c d : Cursor} {a : Location} {phrase : Phrase} {phrases : List Phrase}
  {here : Bool} {limit : Nat}

theorem nextSibling_awaits (h : c.Facing (phrase :: phrases) d) :
    OnSuccess nextSibling d fun here e => c.Awaits here phrases e := by
  cases phrases with
  | nil => exact .runs (runs_nextSibling_last h) (.none h.under)
  | cons next more =>
    rcases runs_nextSibling_facing h with ⟨e, hruns, he⟩
    exact .runs hruns (.here he)

/-! ## Variables -/

/-- The shapes of the mark and the first value behind a type, if they are there. -/
inductive IsInitial : List Phrase → Prop
  | nil : IsInitial []
  | value {mark value} (isMark : mark.kind = .assignment) (onValue : value.IsExpr) :
      IsInitial [ofToken .assignOp mark, value]

/-- The shape of an assignment with a type. -/
inductive IsTyped : Phrase → Prop
  | intro {target type more} (onTarget : target.IsExpr) (onType : type.IsTypeDef)
      (onMore : IsInitial more) : IsTyped (group .assignStatement (target :: type :: more))

/-- A step to the right together with the question whether it led to a type. -/
theorem nextTypeDef_facing {β : Type} {next : Bool → Walk β} {post : β → Cursor → Prop}
    {other : Phrase} (h : c.Facing (phrase :: other :: phrases) d)
    (hnext : ∀ e, c.Facing (other :: phrases) e →
      OnSuccess (next (decide (other.kind = .typeDef))) e post) :
    OnSuccess (andAlso nextSibling (isAt .typeDef) >>= next) d post := by
  have hlook : OnSuccess (andAlso nextSibling (isAt .typeDef)) d fun found e =>
      found = decide (other.kind = .typeDef) ∧ c.Facing (other :: phrases) e := by
    apply nextSibling_facing h
    intro e he
    have hruns : Runs (isAt .typeDef) e (decide (e.node.kind = .typeDef)) e := rfl
    rw [he.node_eq] at hruns
    exact .runs hruns ⟨rfl, he⟩
  apply hlook.bind
  rintro _ e ⟨rfl, he⟩
  exact hnext e he

/-- Whether a phrase is an assignment with a type. -/
theorem isVarInit_yields (h : phrase.IsStmt) :
    Yields isVarInit (fun typed => typed = true → IsTyped phrase) phrase := by
  intro d hd
  apply isAt_andAlso_facing hd
  · intro hkind
    have htold {target second : Phrase} {more : List Phrase}
        (hphrase : phrase = group .assignStatement (target :: second :: more))
        (htyped : second.kind = .typeDef → IsTyped phrase) :
        OnSuccess (firstChild >>= fun entered => if entered then do
          let typed ← andAlso nextSibling (isAt .typeDef)
          leave
          return typed else return false) d
          fun typed last => last = d ∧ (typed = true → IsTyped phrase) := by
      subst hphrase
      apply firstChild_facing hd
      intro e he
      apply nextTypeDef_facing he
      intro f hf
      exact leave_under hf.under (.pure ⟨rfl, fun htrue => htyped (of_decide_eq_true htrue)⟩)
    cases h with
    | declaration onTarget onType => exact htold rfl fun _ => .intro onTarget onType .nil
    | definition onTarget onType isMark onValue =>
      exact htold rfl fun _ => .intro onTarget onType (.value isMark onValue)
    | assign onTarget isMark onValue => exact htold rfl nofun
    | @word kind _ isWord =>
      cases hkind
      cases isWord
    | _ => cases hkind
  · intro _
    exact .pure ⟨rfl, nofun⟩

/-- A variable has a name, a type and a first value. -/
theorem varInit_yields (h : IsTyped phrase) (hwrote : l.Wrote phrase) :
    Yields l.varInit (LowersVarInit l phrase) phrase := by
  rcases h with @⟨target, type, more, onTarget, onType, onMore⟩
  simp only [wrote_group, List.forall_mem_cons] at hwrote
  obtain ⟨htarget, htype, hmore⟩ := hwrote
  intro d hd
  apply location_bind
  intro a ha
  rw [hd] at ha
  apply enter_facing hd
  intro e he
  apply text_facing he.node_eq
  apply isAt_facing he.node_eq
  by_cases hname : target.kind = .variableName
  case neg =>
    rw [decide_eq_false hname]
    exact .throw trivial
  rcases onTarget.eq_name hname with ⟨name, isName, rfl⟩
  rw [textOf_name isName htarget, decide_eq_true hname]
  apply step_facing he
  intro f hf
  apply isAt_facing hf.node_eq
  rw [decide_eq_true onType.kind_eq]
  apply (typeDef_yields onType htype).bind hf.node_eq
  intro ty hty
  cases onMore with
  | nil =>
    have hends : OnSuccess (andAlso (l.stepTo "=") nextSibling) f fun found _ => found = false :=
      stepTo_last hf (.pure rfl)
    apply hends.bind
    rintro _ _ rfl
    exact .throw trivial
  | @value mark value isMark onValue =>
    simp only [List.forall_mem_cons] at hmore
    obtain ⟨hmark, hvalue, -⟩ := hmore
    have hgoes : OnSuccess (andAlso (l.stepTo "=") nextSibling) f fun found g =>
        found = true ∧ d.Facing [value] g := by
      apply stepTo_facing hf
      intro g hg
      rw [reads_ofToken (wrote_ofToken.mp hmark) (by rw [isMark]; rfl) rfl]
      rcases runs_nextSibling_facing hg with ⟨i, hruns, hi⟩
      exact .runs hruns ⟨rfl, hi⟩
    apply hgoes.bind
    rintro _ g ⟨rfl, hg⟩
    apply (literal_yields onValue hvalue).bind hg.node_eq
    intro literal hliteral
    exact leave_under hg.under (.pure ⟨rfl, .intro isName hty isMark hliteral ha⟩)

/-- The declarations of variables in a row, up to the first phrase that is none. -/
theorem varInits_facing (hphrases : ∀ part ∈ phrases, part.IsStmt ∧ l.Wrote part)
    (h : c.Awaits here phrases d) :
    OnSuccess (l.varInits limit here) d fun result last => ∃ before behind,
      phrases = before ++ behind ∧ List.Forall₂ (LowersVarInit l) before result.1 ∧
      c.Awaits result.2 behind last := by
  induction limit generalizing here phrases d with
  | zero => exact .throw trivial
  | succ limit ih =>
    cases h with
    | none h => exact .pure ⟨[], [], rfl, .nil, .none h⟩
    | @here first more _ h =>
      obtain ⟨⟨hfirst, hwrote⟩, hmore⟩ := List.forall_mem_cons.mp hphrases
      apply (isVarInit_yields hfirst).bind h.node_eq
      intro typed htyped
      cases typed with
      | false => exact .pure ⟨[], first :: more, rfl, .nil, .here h⟩
      | true =>
        apply (varInit_yields (htyped rfl) hwrote).bind h.node_eq
        intro init hinit
        apply (nextSibling_awaits h).bind
        intro here e he
        apply (ih hmore he).bind
        rintro ⟨inits, here'⟩ last ⟨before, behind, rfl, hinits, hlast⟩
        exact .pure ⟨first :: before, behind, rfl, .cons hinit hinits, hlast⟩

/-- The statements in a row. -/
theorem stmts_facing (hphrases : ∀ part ∈ phrases, part.IsStmt ∧ l.Wrote part)
    (h : c.Awaits here phrases d) :
    OnSuccess (l.stmts limit here) d fun stmts last =>
      c.Under last ∧ List.Forall₂ (LowersStmt l) phrases stmts := by
  induction limit generalizing here phrases d with
  | zero => exact .throw trivial
  | succ limit ih =>
    cases h with
    | none h => exact .pure ⟨h, .nil⟩
    | @here first more _ h =>
      obtain ⟨⟨hfirst, hwrote⟩, hmore⟩ := List.forall_mem_cons.mp hphrases
      apply (stmt_yields hfirst hwrote).bind h.node_eq
      intro stmt hstmt
      apply (nextSibling_awaits h).bind
      intro here e he
      apply (ih hmore he).bind
      rintro stmts last ⟨hlast, hstmts⟩
      exact .pure ⟨hlast, .cons hstmt hstmts⟩

/-! ## Functions -/

/-- What stands behind the name of a parameter that has no type. -/
theorem behind_name {comma : Option Token} {more : List Phrase} {closing : Token}
    (hmore : AreParameters more) : ∃ other rest,
    optionalMark comma ++ (more ++ [ofToken .punctuation closing]) = other :: rest ∧
      other.kind ≠ .typeDef := by
  cases comma with
  | some comma => exact ⟨_, _, rfl, nofun⟩
  | none =>
    cases hmore with
    | nil => exact ⟨_, _, rfl, nofun⟩
    | cons => exact ⟨_, _, rfl, nofun⟩

/-- One parameter.  The walk ends at its type. -/
theorem parameter_facing {name : Token} {type : Option Phrase} {comma : Option Token}
    {more : List Phrase} {closing : Token} (isName : name.kind = .identifier)
    (onType : ∀ phrase ∈ type, phrase.IsTypeDef) (hmore : AreParameters more)
    (hname : name.WrittenIn l.source) (htype : ∀ phrase ∈ type, l.Wrote phrase)
    (h : c.Facing (ofToken .variableName name :: (Option.toList type ++
      (optionalMark comma ++ (more ++ [ofToken .punctuation closing])))) d) :
    OnSuccess l.parameter d fun parameter last => ∃ phrase ty, type = some phrase ∧
      LowersTypeDef phrase ty ∧ parameter = ⟨name.text, ty⟩ ∧ c.Facing (phrase ::
        (optionalMark comma ++ (more ++ [ofToken .punctuation closing]))) last := by
  apply text_facing h.node_eq
  rw [textOf_name isName (wrote_ofToken.mpr hname)]
  apply location_bind
  intro a _
  cases type with
  | none =>
    obtain ⟨other, rest, hrest, hother⟩ := @behind_name comma more closing hmore
    rw [Option.toList_none, List.nil_append, hrest] at h
    apply nextTypeDef_facing h
    intro e _
    rw [decide_eq_false hother]
    exact .throw trivial
  | some type =>
    apply nextTypeDef_facing h
    intro e he
    rw [decide_eq_true (onType type rfl).kind_eq]
    apply (typeDef_yields (onType type rfl) (htype type rfl)).bind he.node_eq
    intro ty hty
    exact .pure ⟨type, ty, rfl, hty, rfl, he⟩

/-- The parameters from here on to the right, up to the closing parenthesis.  The comma behind
the parameter at the cursor is still to be passed over. -/
theorem parametersFrom_facing {comma : Option Token} {parts : List Phrase} {closing : Token}
    (isComma : ∀ token ∈ comma, token.kind = .comma) (hparts : AreParameters parts)
    (isClosing : closing.kind = .closeParen)
    (hwrote : ∀ part ∈ optionalMark comma ++ (parts ++ [ofToken .punctuation closing]),
      l.Wrote part)
    (h : c.Facing (phrase :: (optionalMark comma ++ (parts ++ [ofToken .punctuation closing])))
      d) :
    OnSuccess (collect (l.isToken ")") (do
      if ← l.isToken "," then return [] else return [← l.parameter]) limit) d
      fun parameters last => c.Under last ∧ LowersParameters parts parameters := by
  induction limit generalizing phrase comma parts d with
  | zero => exact .throw trivial
  | succ limit ih =>
    cases comma with
    | some comma =>
      have hreads (word : String) :
          l.reads (ofToken .punctuation comma).node word = decide ("," = word) :=
        reads_ofToken (wrote_ofToken.mp (hwrote _ List.mem_cons_self))
          (by rw [isComma comma rfl]; rfl) rfl
      apply comma_step h (hreads ")") (hreads ",")
      intro e he
      have hmore (part : Phrase) (hpart : part ∈ parts ++ [ofToken .punctuation closing]) :
          l.Wrote part := hwrote part (List.mem_cons_of_mem _ hpart)
      exact @ih _ _ none _ nofun hparts hmore he
    | none =>
      cases hparts with
      | nil =>
        apply nextSibling_facing h
        intro e he
        apply isToken_facing he.node_eq
        rw [reads_ofToken (wrote_ofToken.mp (hwrote _ List.mem_cons_self))
          (by rw [isClosing]; rfl) rfl]
        exact .pure ⟨he.under, .nil⟩
      | @cons name type comma more isName onType isComma onMore =>
        have hrow : c.Facing (phrase :: ofToken .variableName name :: (Option.toList type ++
            (optionalMark comma ++ (more ++ [ofToken .punctuation closing])))) d := by
          simpa [optionalMark] using h
        have hname : name.WrittenIn l.source := wrote_ofToken.mp (hwrote _ List.mem_cons_self)
        have htype (part : Phrase) (hpart : part ∈ type) : l.Wrote part :=
          hwrote part (by simp_all [optionalMark])
        have hmore (part : Phrase)
            (hpart : part ∈ optionalMark comma ++ (more ++ [ofToken .punctuation closing])) :
            l.Wrote part :=
          hwrote part (by simp_all [optionalMark])
        have hone (e : Cursor) (he : c.Facing (ofToken .variableName name ::
            (Option.toList type ++ (optionalMark comma ++ (more ++
              [ofToken .punctuation closing])))) e) :
            OnSuccess (do return [← l.parameter]) e fun parameters last => ∃ part ty,
              type = some part ∧ LowersTypeDef part ty ∧ parameters = [⟨name.text, ty⟩] ∧
              c.Facing (part :: (optionalMark comma ++ (more ++
                [ofToken .punctuation closing]))) last := by
          apply (parameter_facing isName onType onMore hname htype he).bind
          rintro _ last ⟨part, ty, htype, hty, rfl, hlast⟩
          exact .pure ⟨part, ty, htype, hty, rfl, hlast⟩
        apply item_step hrow (reads_of_not_fixed rfl _) (reads_of_not_fixed rfl _) hone
        rintro _ e ⟨part, ty, rfl, hty, rfl, he⟩
        apply (ih isComma onMore hmore he).mono
        rintro parameters last ⟨hlast, hparameters⟩
        exact ⟨hlast, .cons isName hty isComma hparameters⟩

/-- A list of parameters. -/
theorem parameters_yields (h : phrase.IsParamList) (hwrote : l.Wrote phrase) :
    Yields l.parameters (LowersParamList phrase) phrase := by
  rcases h with @⟨opening, parts, closing, isOpening, onParts, isClosing⟩
  intro d hd
  apply firstChild_facing hd
  intro e he
  have hinside := (List.forall_mem_cons.mp (wrote_group.mp hwrote)).2
  apply Meets.bind (@parametersFrom_facing _ _ _ _ _ none _ _ nofun onParts isClosing hinside he)
  rintro parameters last ⟨hlast, hparameters⟩
  exact leave_under hlast (.pure ⟨rfl, .intro isOpening hparameters isClosing⟩)

/-- The type of a result. -/
theorem result_facing {result : Option Phrase} {body : Phrase} {β : Type}
    {next : Ty → Walk β} {post : β → Cursor → Prop}
    (onResult : ∀ type ∈ result, type.IsTypeDef) (hbody : body.IsBody)
    (hwrote : ∀ type ∈ result, l.Wrote type)
    (h : c.Facing (Option.toList result ++ [body]) d)
    (hnext : ∀ ty e, LowersResult result ty → c.Facing [body] e → OnSuccess (next ty) e post) :
    OnSuccess (do
      let ret ←
        if ← isAt .typeDef then do
          let ty ← l.typeDef
          step
          pure ty
        else pure .none
      next ret) d post := by
  cases result with
  | none =>
    apply isAt_facing h.node_eq
    rw [decide_eq_false (hbody.kind_eq ▸ nofun)]
    exact .bind_runs (.pure _ _) (hnext .none d .none h)
  | some type =>
    apply isAt_facing h.node_eq
    rw [decide_eq_true (onResult type rfl).kind_eq]
    apply (typeDef_yields (onResult type rfl) (hwrote type rfl)).bind h.node_eq
    intro ty hty
    apply step_facing h
    intro e he
    exact hnext ty e (.some hty) he

/-- The definition of a function. -/
theorem funDef_yields {word name : Token} {list body : Phrase} {result : Option Phrase}
    (isDef : word.kind = .defWord) (isName : name.kind = .identifier) (onList : list.IsParamList)
    (onResult : ∀ type ∈ result, type.IsTypeDef) (onBody : body.IsBody)
    (hphrase : phrase = group .functionDefinition (ofToken .keyword word ::
      ofToken .variableName name :: list :: (Option.toList result ++ [body])))
    (hwrote : l.Wrote phrase) : Yields l.funDef (LowersFunDef l phrase) phrase := by
  subst hphrase
  have hparts := wrote_group.mp hwrote
  have hname := hparts (ofToken .variableName name) (by simp)
  have hlist := hparts list (by simp)
  have hresult (type : Phrase) (htype : type ∈ result) : l.Wrote type :=
    hparts type (by simp [show result = some type from htype])
  have hbody := hparts body (by simp)
  intro d hd
  apply location_bind
  intro a ha
  rw [hd] at ha
  apply enter_facing hd
  intro e he
  apply step_facing he
  intro f hf
  apply text_facing hf.node_eq
  rw [textOf_name isName hname]
  -- The last two parts are known as two phrases only once it is known whether there is a result.
  have hrest : ∃ third rest, Option.toList result ++ [body] = third :: rest := by
    cases result with
    | none => exact ⟨_, _, rfl⟩
    | some type => exact ⟨_, _, rfl⟩
  rcases hrest with ⟨third, rest, hrest⟩
  apply step_facing hf
  intro g hg
  apply (parameters_yields onList hlist).bind hg.node_eq
  intro parameters hparameters
  rw [hrest] at hg
  apply step_facing hg
  intro i hi
  rw [← hrest] at hi
  apply result_facing onResult onBody hresult hi
  intro ret j hret hj
  apply openBody_facing onBody hbody hj.node_eq
  rintro colon statements k rfl isColon onStatements hk
  have hstatements (part : Phrase) (hpart : part ∈ statements) : part.IsStmt ∧ l.Wrote part :=
    ⟨onStatements part hpart, wrote_group.mp hbody part (List.mem_cons_of_mem _ hpart)⟩
  apply (nextSibling_awaits hk).bind
  intro here m hm
  apply (varInits_facing hstatements hm).bind
  rintro ⟨inits, here⟩ n ⟨before, behind, rfl, hinits, hn⟩
  apply (stmts_facing (fun part hpart => hstatements part (List.mem_append_right _ hpart)) hn).bind
  rintro stmts last ⟨hlast, hstmts⟩
  apply leave_under hlast
  apply leave_under hj.under
  exact .pure ⟨rfl, .intro isDef isName hparameters hret (.intro isColon hinits hstmts) ha⟩

/-! ## Classes -/

/-- The names between the brackets of `Generic[...]`. -/
theorem genericNames_facing {inside : List Phrase} {closing : Token}
    (marks : ∀ part ∈ inside, part.kind = .punctuation →
      part.IsMark fun kind => kind = .colon ∨ kind = .comma)
    (onInside : ∀ part ∈ inside, part.kind ≠ .punctuation → part.IsExpr)
    (isClosing : closing.kind = .closeBracket) (hinside : ∀ part ∈ inside, l.Wrote part)
    (hclosing : closing.WrittenIn l.source)
    (h : c.Facing (phrase :: (inside ++ [ofToken .punctuation closing])) d) :
    OnSuccess l.genericNames d fun names last => c.Under last ∧ CommasOnly inside ∧
      List.Forall₂ (fun part name => ∃ token : Token, token.kind = .identifier ∧
        part = ofToken .variableName token ∧ name = token.text) (between inside) names := by
  have hend : l.reads (ofToken .punctuation closing).node "]" = true := by
    rw [reads_ofToken hclosing (by rw [isClosing]; rfl) rfl]
    rfl
  apply (listItems_facing (R := fun part values => ∃ value, values = [value] ∧
    ∃ token : Token, token.kind = .identifier ∧ part = ofToken .variableName token ∧
      value = token.text) ⟨by decide, by decide⟩ ?_ ?_ marks onInside hinside hend h).mono
  · rintro names last ⟨hlast, hcommas, groups, hgroups, rfl⟩
    exact ⟨hlast, hcommas, forall₂_flatten hgroups⟩
  · intro part hpart e he
    apply isAt_facing he
    by_cases hname : part.kind = .variableName
    · rw [decide_eq_true hname]
      apply text_facing he
      have hexpr := onInside part hpart (hname ▸ nofun)
      rcases hexpr.eq_name hname with ⟨token, isName, rfl⟩
      rw [textOf_name isName (hinside _ hpart)]
      exact .pure ⟨rfl, _, rfl, token, isName, rfl, rfl⟩
    · rw [decide_eq_false hname]
      exact text_facing he refuse_facing
  · rintro _ _ ⟨_, -, token, -, rfl, -⟩
    exact nofun

/-- The question for `Generic` and an opening bracket behind it. -/
theorem opensGeneric_facing {object next : Phrase} (hobject : object.IsExpr)
    (hwrote : l.Wrote object) (h : c.Facing (object :: next :: phrases) d) :
    OnSuccess (andAlso (andAlso (isAt .variableName) (do return (← l.text) = "Generic"))
      (l.stepTo "[")) d fun opens last => opens = true → c.Facing (next :: phrases) last ∧
        l.reads next.node "[" = true ∧ ∃ name : Token, name.kind = .identifier ∧
          name.text = "Generic" ∧ object = ofToken .variableName name := by
  have hkind : Runs (isAt .variableName) d (decide (object.kind = .variableName)) d := by
    rw [Phrase.kind, ← h.node_eq]
    rfl
  by_cases hname : object.kind = .variableName
  case neg =>
    rw [decide_eq_false hname] at hkind
    exact .bind_runs (.bind hkind (.pure _ _)) (.pure fun h => absurd h Bool.false_ne_true)
  rcases hobject.eq_name hname with ⟨name, isName, rfl⟩
  rw [decide_eq_true hname] at hkind
  have htext : Runs (do return decide ((← l.text) = "Generic")) d
      (decide (name.text = "Generic")) d := by
    rw [← textOf_name isName hwrote, ← h.node_eq]
    rfl
  refine .bind_runs (.bind hkind htext) ?_
  by_cases hgeneric : name.text = "Generic"
  case neg =>
    rw [decide_eq_false hgeneric]
    exact .pure fun h => absurd h Bool.false_ne_true
  rw [decide_eq_true hgeneric]
  apply nextSibling_facing h
  intro e he
  have hreads := runs_isToken (l := l) "[" e
  rw [he.node_eq] at hreads
  exact .runs hreads fun hopens => ⟨he, hopens, name, isName, hgeneric, rfl⟩

/-- A base class is `object` or an application of `Generic`. -/
theorem base_yields (hphrase : phrase.IsExpr ∨ phrase.kind = .punctuation)
    (hwrote : l.Wrote phrase) : Yields l.base (LowersBase phrase) phrase := by
  intro d hd
  apply kind_facing hd
  rcases hphrase with hexpr | hmark
  · cases hexpr with
    | @name token isName =>
      apply text_facing hd
      rw [textOf_name isName hwrote]
      split
      next hobject => exact .pure ⟨rfl, .object isName hobject⟩
      next => exact refuse_facing
    | @property object dot name onObject isDot isName =>
      simp only [wrote_group, List.forall_mem_cons] at hwrote
      apply text_facing hd
      apply location_bind
      intro a _
      apply enter_facing hd
      intro e he
      apply (opensGeneric_facing onObject hwrote.1 he).bind
      intro opens last hlast
      cases opens with
      | false => exact .throw trivial
      | true =>
        obtain ⟨-, hreads, -⟩ := hlast rfl
        rw [reads_ofToken (wrote_ofToken.mp hwrote.2.1) (by rw [isDot]; rfl) rfl] at hreads
        cases hreads
    | @index object opening inside closing onObject isOpening marks onInside isClosing =>
      simp only [wrote_group, List.forall_mem_cons, wrote_ofToken, List.cons_append,
        List.mem_append, List.mem_singleton, or_imp, forall_and, forall_eq] at hwrote
      obtain ⟨hobject, -, hinside, hclosing⟩ := hwrote
      apply text_facing hd
      apply location_bind
      intro a _
      apply enter_facing hd
      intro e he
      apply (opensGeneric_facing onObject hobject he).bind
      intro opens f hf
      cases opens with
      | false => exact .throw trivial
      | true =>
        obtain ⟨hfacing, -, name, isName, hgeneric, rfl⟩ := hf rfl
        apply (genericNames_facing marks onInside isClosing hinside hclosing hfacing).bind
        rintro names last ⟨hlast, hcommas, hnames⟩
        exact leave_under hlast
          (.pure ⟨rfl, .generic isName hgeneric isOpening hcommas hnames isClosing⟩)
    | @comprehension kind _ _ _ _ _ _ _ isOpening | @filtered kind _ _ _ _ _ _ _ _ _ isOpening =>
      cases kind <;> first | exact text_facing hd refuse_facing | cases isOpening
    | _ => exact text_facing hd refuse_facing
  · rw [hmark]
    exact text_facing hd refuse_facing

theorem kind_ne_of_lowersBase {names : List String} (h : LowersBase phrase names) :
    phrase.kind ≠ .punctuation := by
  cases h <;> exact nofun

/-- The type parameters of a class. -/
theorem generics_yields (h : phrase.IsArgList) (hwrote : l.Wrote phrase) :
    Yields l.generics (LowersBases (some phrase)) phrase := by
  rcases h with @⟨opening, items, closing, isOpening, commas, onItems, isClosing⟩
  simp only [wrote_group, List.forall_mem_cons, wrote_ofToken, List.cons_append,
    List.mem_append, List.mem_singleton, or_imp, forall_and, forall_eq] at hwrote
  obtain ⟨-, hitems, hclosing⟩ := hwrote
  intro d hd
  apply firstChild_facing hd
  intro e he
  have hend : l.reads (ofToken .punctuation closing).node ")" = true := by
    rw [reads_ofToken hclosing (by rw [isClosing]; rfl) rfl]
    rfl
  have hmarks (part : Phrase) (hpart : part ∈ items) (hkind : part.kind = .punctuation) :
      part.IsMark fun kind => kind = .colon ∨ kind = .comma := by
    rcases commas part hpart hkind with ⟨token, hcomma, rfl⟩
    exact ⟨token, .inr hcomma, rfl⟩
  apply Meets.bind (listItems_facing (R := LowersBase) ⟨by decide, by decide⟩ ?_
    (fun _ _ => kind_ne_of_lowersBase) hmarks onItems hitems hend he)
  · rintro _ last ⟨hlast, hcommas, groups, hgroups, rfl⟩
    exact leave_under hlast (.pure ⟨rfl, .some isOpening hcommas hgroups isClosing⟩)
  · intro part hpart
    apply base_yields ?_ (hitems part hpart)
    by_cases hkind : part.kind = .punctuation
    · exact .inr hkind
    · exact .inl (onItems part hpart hkind)

/-- A statement that is the definition of a function. -/
theorem funDef_yields_of_kind (h : phrase.IsStmt) (hkind : phrase.kind = .functionDefinition)
    (hwrote : l.Wrote phrase) : Yields l.funDef (LowersFunDef l phrase) phrase := by
  cases h with
  | «fun» isDef isName onList onResult onBody =>
    exact funDef_yields isDef isName onList onResult onBody rfl hwrote
  | @word kind _ isWord =>
    cases hkind
    cases isWord
  | _ => cases hkind

theorem pass_of_kind (h : phrase.IsStmt) (hkind : phrase.kind = .passStatement) :
    LowersMember l phrase [] := by
  cases h with
  | @word kind _ isWord =>
    cases hkind
    exact .pass (Option.some.inj isWord).symm
  | _ => cases hkind

/-- A part of a class is a field, a method or `pass`. -/
theorem classMember_yields {name : String} (h : phrase.IsStmt) (hwrote : l.Wrote phrase) :
    Yields (l.classMember a name) (LowersMember l phrase) phrase := by
  intro d hd
  apply (isVarInit_yields h).bind hd
  intro typed htyped
  cases typed with
  | true =>
    apply (varInit_yields (htyped rfl) hwrote).bind hd
    intro init hinit
    exact .pure ⟨rfl, .field hinit⟩
  | false =>
    apply isAt_facing hd
    by_cases hfun : phrase.kind = .functionDefinition
    · rw [decide_eq_true hfun]
      apply (funDef_yields_of_kind h hfun hwrote).bind hd
      intro fn hfn
      exact .pure ⟨rfl, .method hfn⟩
    · rw [decide_eq_false hfun]
      apply isAt_facing hd
      by_cases hpass : phrase.kind = .passStatement
      · rw [decide_eq_true hpass]
        exact .pure ⟨rfl, pass_of_kind h hpass⟩
      · rw [decide_eq_false hpass]
        exact .throw trivial

/-- The base classes of a class. -/
theorem bases_facing {bases : Option Phrase} {body : Phrase} {β : Type}
    {next : List String → Walk β} {post : β → Cursor → Prop}
    (onBases : ∀ list ∈ bases, list.IsArgList) (hbody : body.IsBody)
    (hwrote : ∀ list ∈ bases, l.Wrote list)
    (h : c.Facing (Option.toList bases ++ [body]) d)
    (hnext : ∀ names e, LowersBases bases names → c.Facing [body] e →
      OnSuccess (next names) e post) :
    OnSuccess (do
      let generics ←
        if ← isAt .argList then do
          let names ← l.generics
          step
          pure names
        else pure []
      next generics) d post := by
  cases bases with
  | none =>
    apply isAt_facing h.node_eq
    rw [decide_eq_false (hbody.kind_eq ▸ nofun)]
    exact .bind_runs (.pure _ _) (hnext [] d .none h)
  | some list =>
    apply isAt_facing h.node_eq
    rw [decide_eq_true (onBases list rfl).kind_eq]
    apply (generics_yields (onBases list rfl) (hwrote list rfl)).bind h.node_eq
    intro names hnames
    apply step_facing h
    intro e he
    exact hnext names e hnames he

/-- The definition of a class. -/
theorem classDef_yields {word name : Token} {bases : Option Phrase} {body : Phrase}
    (isClass : word.kind = .classWord) (isName : name.kind = .identifier)
    (onBases : ∀ list ∈ bases, list.IsArgList) (onBody : body.IsBody)
    (hphrase : phrase = group .classDefinition (ofToken .keyword word ::
      ofToken .variableName name :: (Option.toList bases ++ [body])))
    (hwrote : l.Wrote phrase) : Yields l.classDef (LowersClassDef l phrase) phrase := by
  subst hphrase
  have hparts := wrote_group.mp hwrote
  have hname := hparts (ofToken .variableName name) (by simp)
  have hbases (list : Phrase) (hlist : list ∈ bases) : l.Wrote list :=
    hparts list (by simp [show bases = some list from hlist])
  have hbody := hparts body (by simp)
  intro d hd
  apply location_bind
  intro a ha
  rw [hd] at ha
  apply enter_facing hd
  intro e he
  apply step_facing he
  intro f hf
  apply text_facing hf.node_eq
  rw [textOf_name isName hname]
  have hrest : ∃ third rest, Option.toList bases ++ [body] = third :: rest := by
    cases bases with
    | none => exact ⟨_, _, rfl⟩
    | some type => exact ⟨_, _, rfl⟩
  rcases hrest with ⟨third, rest, hrest⟩
  rw [hrest] at hf
  apply step_facing hf
  intro g hg
  rw [← hrest] at hg
  apply bases_facing onBases onBody hbases hg
  intro generics i hgenerics hi
  apply openBody_facing onBody hbody hi.node_eq
  rintro colon statements j rfl isColon onStatements hj
  have hj' : i.Facing (ofToken .punctuation colon :: (statements ++ [])) j := by
    rwa [List.append_nil]
  apply Meets.bind
    (collect_facing (fun _ => false) (LowersMember l) (fun _ => rfl) ?_ (by simp) hj')
  · rintro _ last ⟨hlast, groups, hgroups, rfl⟩
    apply leave_under hlast
    apply leave_under hi.under
    exact .pure ⟨rfl, .intro isClass isName hgenerics isColon hgroups ha⟩
  · intro part hpart
    exact ⟨rfl, classMember_yields (onStatements part hpart)
      (wrote_group.mp hbody part (List.mem_cons_of_mem _ hpart))⟩

/-! ## Programs -/

/-- A statement that is the definition of a class. -/
theorem classDef_yields_of_kind (h : phrase.IsStmt) (hkind : phrase.kind = .classDefinition)
    (hwrote : l.Wrote phrase) : Yields l.classDef (LowersClassDef l phrase) phrase := by
  cases h with
  | «class» isClass isName onBases onBody =>
    exact classDef_yields isClass isName onBases onBody rfl hwrote
  | @word kind _ isWord =>
    cases hkind
    cases isWord
  | _ => cases hkind

/-- A declaration, if the phrase is one. -/
theorem declaration_yields (h : phrase.IsStmt) (hwrote : l.Wrote phrase) :
    Yields l.declaration
      (fun found => ∀ declaration ∈ found, LowersDeclaration l phrase declaration) phrase := by
  intro d hd
  apply (isVarInit_yields h).bind hd
  intro typed htyped
  cases typed with
  | true =>
    apply (varInit_yields (htyped rfl) hwrote).bind hd
    intro init hinit
    exact .pure ⟨rfl, by rintro _ ⟨⟩; exact .init hinit⟩
  | false =>
    apply isAt_facing hd
    by_cases hfun : phrase.kind = .functionDefinition
    · rw [decide_eq_true hfun]
      apply (funDef_yields_of_kind h hfun hwrote).bind hd
      intro fn hfn
      exact .pure ⟨rfl, by rintro _ ⟨⟩; exact .fun hfn⟩
    · rw [decide_eq_false hfun]
      apply isAt_facing hd
      by_cases hclass : phrase.kind = .classDefinition
      · rw [decide_eq_true hclass]
        apply (classDef_yields_of_kind h hclass hwrote).bind hd
        intro cls hcls
        exact .pure ⟨rfl, by rintro _ ⟨⟩; exact .cls hcls⟩
      · rw [decide_eq_false hclass]
        exact .pure ⟨rfl, nofun⟩

/-- The declarations in a row, up to the first phrase that is none. -/
theorem declarations_facing (hphrases : ∀ part ∈ phrases, part.IsStmt ∧ l.Wrote part)
    (h : c.Awaits here phrases d) :
    OnSuccess (l.declarations limit here) d fun result last => ∃ before behind,
      phrases = before ++ behind ∧ List.Forall₂ (LowersDeclaration l) before result.1 ∧
      c.Awaits result.2 behind last := by
  induction limit generalizing here phrases d with
  | zero => exact .throw trivial
  | succ limit ih =>
    cases h with
    | none h => exact .pure ⟨[], [], rfl, .nil, .none h⟩
    | @here first more _ h =>
      obtain ⟨⟨hfirst, hwrote⟩, hmore⟩ := List.forall_mem_cons.mp hphrases
      apply (declaration_yields hfirst hwrote).bind h.node_eq
      intro found hfound
      cases found with
      | none => exact .pure ⟨[], first :: more, rfl, .nil, .here h⟩
      | some declaration =>
        apply (nextSibling_awaits h).bind
        intro here e he
        apply (ih hmore he).bind
        rintro ⟨declarations, here'⟩ last ⟨before, behind, rfl, hdeclarations, hlast⟩
        exact .pure ⟨first :: before, behind, rfl, .cons (hfound _ rfl) hdeclarations, hlast⟩

/-- Behind the declarations, what is read is a statement. -/
theorem topStmt_yields (h : phrase.IsStmt) (hwrote : l.Wrote phrase) :
    Yields l.topStmt (LowersStmt l phrase) phrase := by
  intro d hd
  apply (isVarInit_yields h).bind hd
  intro typed _
  apply isAt_facing hd
  apply isAt_facing hd
  split
  · exact (onSuccess_true l.declaredName).bind fun _ _ _ => refuse_facing
  · exact stmt_yields h hwrote d hd

/-- The statements of a program in a row. -/
theorem topStmts_facing (hphrases : ∀ part ∈ phrases, part.IsStmt ∧ l.Wrote part)
    (h : c.Awaits here phrases d) :
    OnSuccess (l.topStmts limit here) d fun stmts last =>
      c.Under last ∧ List.Forall₂ (LowersStmt l) phrases stmts := by
  induction limit generalizing here phrases d with
  | zero => exact .throw trivial
  | succ limit ih =>
    cases h with
    | none h => exact .pure ⟨h, .nil⟩
    | @here first more _ h =>
      obtain ⟨⟨hfirst, hwrote⟩, hmore⟩ := List.forall_mem_cons.mp hphrases
      apply (topStmt_yields hfirst hwrote).bind h.node_eq
      intro stmt hstmt
      apply (nextSibling_awaits h).bind
      intro here e he
      apply (ih hmore he).bind
      rintro stmts last ⟨hlast, hstmts⟩
      exact .pure ⟨hlast, .cons hstmt hstmts⟩

/-- The walk over a tree gives the program that it lowers to. -/
theorem program_yields (h : phrase.IsScript) (hwrote : l.Wrote phrase) :
    Yields l.program (LowersProgram l phrase) phrase := by
  rcases h with ⟨hkind, statements, hchildren, hwords, hexact, hstatements⟩
  have hparts (part : Phrase) (hpart : part ∈ statements) : part.IsStmt ∧ l.Wrote part :=
    ⟨hstatements part hpart, hwrote.of_words hwords part hpart⟩
  intro d hd
  apply location_bind
  intro a _
  apply isAt_facing hd
  rw [decide_eq_true hkind]
  cases statements with
  | nil =>
    have hnone : d.node.children = [] := by rw [hd, hchildren]; rfl
    refine .bind_runs (runs_firstChild_nil hnone) ?_
    have hdeclarations (limit : Nat) : OnSuccess (l.declarations limit false) d
        fun result last => result = ([], false) ∧ last = d := by
      cases limit with
      | zero => exact .throw trivial
      | succ limit => exact .pure ⟨rfl, rfl⟩
    have hstmts (limit : Nat) : OnSuccess (l.topStmts limit false) d
        fun stmts last => stmts = [] ∧ last = d := by
      cases limit with
      | zero => exact .throw trivial
      | succ limit => exact .pure ⟨rfl, rfl⟩
    apply (hdeclarations l.limit).bind
    rintro _ _ ⟨rfl, rfl⟩
    apply (hstmts l.limit).bind
    rintro _ _ ⟨rfl, rfl⟩
    exact .pure
      ⟨rfl, @LowersProgram.intro _ _ [] [] [] [] _ hkind hchildren hwords hexact .nil .nil⟩
  | cons first more =>
    rw [← hd] at hchildren
    rcases runs_firstChild_facing hchildren with ⟨e, hruns, he⟩
    refine .bind_runs hruns ?_
    apply (declarations_facing hparts (.here he)).bind
    rintro ⟨declarations, here⟩ f ⟨before, behind, hsplit, hdeclarations, hf⟩
    rw [hsplit] at hchildren hwords hexact hparts
    apply (topStmts_facing (fun part hpart => hparts part (List.mem_append_right _ hpart)) hf).bind
    rintro stmts g ⟨hg, hstmts⟩
    apply leave_under hg
    rw [hd] at hchildren
    exact .pure ⟨rfl, .intro hkind hchildren hwords hexact hdeclarations hstmts⟩

end Lowering

/-- The tree of a source that is parsed lowers to its program. -/
theorem parseProgram_lowers {source : Source} {program : Program Location}
    (h : parseProgram source = .ok program) : ∃ tokens tree, tokenize source = .ok tokens ∧
      parse tokens source = .ok tree ∧
      (Lowering.ofTree source tree).Wrote ⟨tree, wordsOf tokens⟩ ∧
      LowersProgram (Lowering.ofTree source tree) ⟨tree, wordsOf tokens⟩ program := by
  have hprogram : parseProgram source = (tokenize source).bind fun tokens =>
      (parse tokens source).bind fun tree => lower tree source := rfl
  rw [hprogram] at h
  cases htokens : tokenize source with
  | error failure =>
    rw [htokens] at h
    cases h
  | ok tokens =>
    rw [htokens] at h
    cases htree : parse tokens source with
    | error failure =>
      simp only [Except.bind, htree] at h
      cases h
    | ok tree =>
      simp only [Except.bind, htree] at h
      have hwrote : (Lowering.ofTree source tree).Wrote ⟨tree, wordsOf tokens⟩ :=
        tokenize_written htokens
      refine ⟨tokens, tree, rfl, htree, hwrote, ?_⟩
      have hyields := Lowering.program_yields (parse_shape htree) hwrote (Cursor.top tree) rfl
      have hlower : lower tree source =
          ((Lowering.ofTree source tree).program (Cursor.top tree)).bind fun entry =>
            .ok entry.1 := rfl
      rw [hlower] at h
      unfold OnSuccess Meets at hyields
      cases hrun : (Lowering.ofTree source tree).program (Cursor.top tree) with
      | error failure =>
        rw [hrun] at h
        cases h
      | ok entry =>
        rw [hrun] at h hyields
        cases h
        exact hyields.2

end Offside
