import Offside.Lowering.Declarations
import Offside.Proofs.Writing.Statements
import Mathlib.Data.List.Forall2

/-!
# Lowered statements

Which statement a syntax tree stands for, and which statements the tree of a block and the tree of
a script.  Behind the first block of a conditional, the walk goes on along the row of the branches,
and each `elif` becomes a conditional inside the alternative of what it belongs to.

Main definitions:

- `StandsForStmt` and `StandsForBlock`: a tree stands for a statement, or for those of a block.
- `ElseRow` and `TailRow`: nodes behind a block stand for the alternative of its header.

Main results:

- Theorems `StandsForStmt.cond`, `StandsForStmt.for` and so on: what a tree stands for, given what
  its parts stand for.
- Theorem `lower_script`: the program of a script of statements.
-/

namespace Offside

/-! ## What trees stand for -/

/-- Whether a node of a kind may declare something. -/
def SyntaxKind.mayDeclare : SyntaxKind → Bool
  | .assignStatement | .functionDefinition | .classDefinition => true
  | _ => false

/-- The lowering of a node gives a statement, wherever the node is part of a larger tree, and comes
back to the node. -/
def LowersToStmt (l : Lowering) (fuel : Nat) (node : SyntaxNode) (stmt : Stmt Location) : Prop :=
  ∀ path, Runs (l.stmtWithin fuel) ⟨node, path⟩ stmt ⟨node, path⟩

/-- A node of the tree of a source stands for a statement: it starts at a place of the source, it
is of no kind that declares anything, and its lowering gives the statement. -/
structure StandsForStmt (source : Source) (node : SyntaxNode) (stmt : Stmt Unit) : Prop where
  cuts : Cuts source node.span.start
  declaresNone : node.kind.mayDeclare = false
  lowers : ∀ (l : Lowering) (fuel : Nat), l.source = source → node.size ≤ l.limit →
    node.size ≤ fuel → ∃ stmt', LowersToStmt l fuel node stmt' ∧ stmt'.bare = stmt

/-- A node of the tree of a source stands for the statements of a block. -/
def StandsForBlock (source : Source) (node : SyntaxNode) (stmts : List (Stmt Unit)) : Prop :=
  ∀ (l : Lowering) (fuel : Nat) (owner : Location), l.source = source → node.size ≤ l.limit →
    node.size ≤ fuel → ∃ stmts',
      (∀ path, Runs (l.blockWith (l.stmtWithin fuel) owner) ⟨node, path⟩ stmts' ⟨node, path⟩) ∧
        Stmt.bareAll stmts' = stmts

/-- Nodes behind the block of a header stand for its alternative: there are none, or there is the
word `else` and its block. -/
inductive ElseRow (source : Source) : List SyntaxNode → List (Stmt Unit) → Prop where
  | nothing : ElseRow source [] []
  | otherwise {span : Span} {body : SyntaxNode} {stmts : List (Stmt Unit)}
      (onWord : Covers source span "else".toList) (onBody : StandsForBlock source body stmts) :
      ElseRow source [.leaf .keyword span, body] stmts

/-- Nodes behind the first block of a conditional stand for its alternative: branches with the word
`elif`, each a conditional inside the alternative, and at last perhaps one with `else`. -/
inductive TailRow (source : Source) : List SyntaxNode → List (Stmt Unit) → Prop where
  | last {nodes : List SyntaxNode} {stmts : List (Stmt Unit)}
      (onElse : ElseRow source nodes stmts) : TailRow source nodes stmts
  | elif {span : Span} {condition body : SyntaxNode} {nodes : List SyntaxNode} {e : Expr Unit}
      {stmts otherwise : List (Stmt Unit)} (onWord : Covers source span "elif".toList)
      (onCondition : StandsFor source condition e) (onBody : StandsForBlock source body stmts)
      (onMore : TailRow source nodes otherwise) :
      TailRow source (.leaf .keyword span :: condition :: body :: nodes)
        [.cond () e stmts otherwise]

/-- The lowering of a statement starts with its location and its kind. -/
theorem StandsForStmt.of_walk {source : Source} {node : SyntaxNode} {stmt : Stmt Unit}
    (cuts : Cuts source node.span.start)
    (declaresNone : node.kind.mayDeclare = false)
    (hwalk : ∀ (l : Lowering) (fuel : Nat) (a : Location), l.source = source →
      node.size ≤ l.limit → node.size ≤ fuel + 1 →
      (∀ path, Runs l.location ⟨node, path⟩ a ⟨node, path⟩) →
        ∃ stmt', LowersToStmt l (fuel + 1) node stmt' ∧ stmt'.bare = stmt) :
    StandsForStmt source node stmt where
  cuts := cuts
  declaresNone := declaresNone
  lowers := by
    rintro l fuel rfl hlimit hfuel
    obtain ⟨fuel, rfl⟩ : ∃ n, fuel = n + 1 := by
      have hpos := node.size_pos
      exact ⟨fuel - 1, by omega⟩
    obtain ⟨a, ha⟩ := Runs.location cuts
    exact hwalk l fuel a rfl hlimit hfuel ha

/-! ## Rows of statements -/

theorem getElem?_of_drop_eq_nil {α : Type} {entries : List α} {n : Nat} (h : entries.drop n = []) :
    entries[n]? = none := by
  rw [← List.head?_drop, h]
  rfl

namespace Runs

variable {source : Source} {nodes : List SyntaxNode} {stmts : List (Stmt Unit)}

/-- The walk along the siblings collects the statements that they stand for. -/
theorem collect_statements (l : Lowering) (fuel : Nat)
    (h : List.Forall₂ (StandsForStmt source) nodes stmts) (hsource : l.source = source)
    (hlimit : SyntaxNode.sizes nodes ≤ l.limit) (hfuel : SyntaxNode.sizes nodes ≤ fuel) :
    ∃ stmts', Stmt.bareAll stmts' = stmts ∧
      ∀ (cur parent : SyntaxNode) (index limit : Nat) (path : List (SyntaxNode × Nat)),
        parent.children.drop (index + 1) = nodes → nodes.length < limit → ∃ last place,
          Runs (Walk.collect (Pure.pure false) (do return [← l.stmtWithin fuel]) limit)
            ⟨cur, (parent, index) :: path⟩ stmts' ⟨last, (parent, place) :: path⟩ := by
  induction h with
  | nil =>
    refine ⟨[], rfl, ?_⟩
    intro cur parent index limit path hdrop hlength
    obtain ⟨limit, rfl⟩ : ∃ n, limit = n + 1 := ⟨limit - 1, by omega⟩
    exact ⟨cur, index, .bind (.nextSibling_none (getElem?_of_drop_eq_nil hdrop)) (.pure _ _)⟩
  | @cons node stmt nodes stmts onFirst onMore ih =>
    rw [SyntaxNode.sizes_cons] at hlimit hfuel
    obtain ⟨stmts', hbare, hrun⟩ := ih (by omega) (by omega)
    obtain ⟨stmt', hstmt, rfl⟩ := onFirst.lowers l fuel hsource (by omega) (by omega)
    refine ⟨stmt' :: stmts', by rw [← hbare]; rfl, ?_⟩
    intro cur parent index limit path hdrop hlength
    rw [List.length_cons] at hlength
    obtain ⟨limit, rfl⟩ : ∃ n, limit = n + 1 := ⟨limit - 1, by omega⟩
    obtain ⟨hnext, hdrop⟩ := getElem?_of_drop hdrop
    obtain ⟨last, place, hmore⟩ := hrun node parent (index + 1) limit path hdrop (by omega)
    refine ⟨last, place, .bind (.nextSibling hnext) (.bind (.pure false _) ?_)⟩
    exact .bind (.bind (hstmt _) (.pure _ _)) (.bind hmore (.pure _ _))

end Runs

/-- A colon and nodes that stand for statements make up a block. -/
theorem StandsForBlock.of_statements {source : Source} {span : Span} {nodes : List SyntaxNode}
    {stmts : List (Stmt Unit)} (onColon : Covers source span ":".toList)
    (h : List.Forall₂ (StandsForStmt source) nodes stmts) :
    StandsForBlock source (.branch .body (.leaf .punctuation span :: nodes)) stmts := by
  intro l fuel owner hsource hlimit hfuel
  simp only [SyntaxNode.size_branch, SyntaxNode.sizes_cons, SyntaxNode.size_leaf] at hlimit hfuel
  have hlength := SyntaxNode.length_le_sizes nodes
  obtain ⟨stmts', hbare, hrun⟩ :=
    Runs.collect_statements l fuel h hsource (by omega) (by omega)
  refine ⟨stmts', ?_, hbare⟩
  intro path
  obtain ⟨last, place, hcollect⟩ := hrun (.leaf .punctuation span)
    (.branch .body (.leaf .punctuation span :: nodes)) 0 l.limit path rfl (by omega)
  have hopen : Runs (l.openBody owner)
      ⟨.branch .body (.leaf .punctuation span :: nodes), path⟩ ()
      ⟨.leaf .punctuation span, (.branch .body (.leaf .punctuation span :: nodes), 0) :: path⟩ := by
    refine .bind (.bind (.isAt_true rfl) (.firstChild rfl)) ?_
    exact .bind (.isToken_eq (hsource.symm ▸ onColon) rfl ":") (.pure _ _)
  exact .bind hopen (.bind hcollect (.bind .leave (.pure _ _)))

/-! ## Alternatives -/

namespace Runs

variable {source : Source} {nodes : List SyntaxNode} {stmts : List (Stmt Unit)}

/-- Behind the first block of a conditional, the walk goes on to the end of the row and gives what
the row stands for. -/
theorem ifTail (l : Lowering) (fuel : Nat) (h : TailRow source nodes stmts)
    (hsource : l.source = source) (hlimit : SyntaxNode.sizes nodes ≤ l.limit)
    (hfuel : SyntaxNode.sizes nodes ≤ fuel) (owner : Location) :
    ∃ stmts', Stmt.bareAll stmts' = stmts ∧
      ∀ (cur parent : SyntaxNode) (index limit : Nat) (path : List (SyntaxNode × Nat)),
        parent.children.drop (index + 1) = nodes → nodes.length < limit → ∃ last place,
          Runs (l.ifTail (l.stmtWithin fuel) limit owner)
            ⟨cur, (parent, index) :: path⟩ stmts' ⟨last, (parent, place) :: path⟩ := by
  subst hsource
  induction h generalizing owner with
  | last onElse =>
    cases onElse with
    | nothing =>
      refine ⟨[], rfl, ?_⟩
      intro cur parent index limit path hdrop hlength
      obtain ⟨limit, rfl⟩ : ∃ n, limit = n + 1 := ⟨limit - 1, by omega⟩
      exact ⟨cur, index, .bind (.nextSibling_none (getElem?_of_drop_eq_nil hdrop)) (.pure _ _)⟩
    | @otherwise span body _ onWord onBody =>
      simp only [SyntaxNode.sizes_cons, SyntaxNode.size_leaf, SyntaxNode.sizes_nil] at hlimit hfuel
      obtain ⟨stmts', hblock, hbare⟩ := onBody l fuel owner rfl (by omega) (by omega)
      refine ⟨stmts', hbare, ?_⟩
      intro cur parent index limit path hdrop hlength
      obtain ⟨limit, rfl⟩ : ∃ n, limit = n + 1 := ⟨limit - 1, by omega⟩
      obtain ⟨hword, hdrop⟩ := getElem?_of_drop hdrop
      obtain ⟨hbody, -⟩ := getElem?_of_drop hdrop
      refine ⟨body, index + 1 + 1, .bind (.nextSibling hword) ?_⟩
      refine .bind (.isToken_eq onWord rfl "else") ?_
      exact .bind (.step hbody) (hblock _)
  | @elif span condition body nodes e stmts otherwise onWord onCondition onBody onMore ih =>
    simp only [SyntaxNode.sizes_cons, SyntaxNode.size_leaf] at hlimit hfuel
    have hcuts : Cuts l.source (SyntaxNode.leaf .keyword span).span.start := onWord.cuts
    obtain ⟨a, ha⟩ := Runs.location hcuts
    obtain ⟨e', he, rfl⟩ := onCondition.lowers l l.limit rfl (by omega) (by omega)
    obtain ⟨stmts', hblock, hbare⟩ := onBody l fuel a rfl (by omega) (by omega)
    obtain ⟨otherwise', hbare', hrun⟩ := ih (by omega) (by omega) a
    refine ⟨[.cond a e' stmts' otherwise'], by rw [← hbare, ← hbare']; rfl, ?_⟩
    intro cur parent index limit path hdrop hlength
    simp only [List.length_cons] at hlength
    obtain ⟨limit, rfl⟩ : ∃ n, limit = n + 1 := ⟨limit - 1, by omega⟩
    obtain ⟨hword, hdrop⟩ := getElem?_of_drop hdrop
    obtain ⟨hcondition, hdrop⟩ := getElem?_of_drop hdrop
    obtain ⟨hbody, hdrop⟩ := getElem?_of_drop hdrop
    obtain ⟨last, place, hmore⟩ := hrun body parent (index + 1 + 1 + 1) limit path hdrop (by omega)
    refine ⟨last, place, .bind (.nextSibling hword) ?_⟩
    refine .bind (.isToken_eq onWord rfl "else") (.bind (.isToken_eq onWord rfl "elif") ?_)
    refine .bind (ha _) (.bind (.step hcondition) (.bind (he _) (.bind (.step hbody) ?_)))
    exact .bind (hblock _) (.bind hmore (.pure _ _))

/-- Behind the block of a loop, the walk goes on with what the row stands for. -/
theorem loopElse (l : Lowering) (fuel : Nat) (h : ElseRow source nodes stmts)
    (hsource : l.source = source) (hlimit : SyntaxNode.sizes nodes ≤ l.limit)
    (hfuel : SyntaxNode.sizes nodes ≤ fuel) (owner : Location) :
    ∃ stmts', Stmt.bareAll stmts' = stmts ∧
      ∀ (cur parent : SyntaxNode) (index : Nat) (path : List (SyntaxNode × Nat)),
        parent.children.drop (index + 1) = nodes → ∃ last place,
          ∀ {rest : List (Stmt Location) → Walk (Stmt Location)} {value : Stmt Location}
            {c : Cursor}, Runs (rest stmts') ⟨last, (parent, place) :: path⟩ value c →
              Runs
                (do
                  if ← l.stepTo "else" then
                    Walk.step
                    let stmts ← l.blockWith (l.stmtWithin fuel) owner
                    rest stmts
                  else
                    let stmts ← Pure.pure []
                    rest stmts)
                ⟨cur, (parent, index) :: path⟩ value c := by
  subst hsource
  cases h with
  | nothing =>
    refine ⟨[], rfl, ?_⟩
    intro cur parent index path hdrop
    have hnone : Runs (l.stepTo "else") ⟨cur, (parent, index) :: path⟩ false
        ⟨cur, (parent, index) :: path⟩ :=
      .bind (.nextSibling_none (getElem?_of_drop_eq_nil hdrop)) (.pure _ _)
    exact ⟨cur, index, fun hrest => .bind hnone (.bind (.pure _ _) hrest)⟩
  | @otherwise span body _ onWord onBody =>
    simp only [SyntaxNode.sizes_cons, SyntaxNode.size_leaf, SyntaxNode.sizes_nil] at hlimit hfuel
    obtain ⟨stmts', hblock, hbare⟩ := onBody l fuel owner rfl (by omega) (by omega)
    refine ⟨stmts', hbare, ?_⟩
    intro cur parent index path hdrop
    obtain ⟨hword, hdrop⟩ := getElem?_of_drop hdrop
    obtain ⟨hbody, -⟩ := getElem?_of_drop hdrop
    refine ⟨body, index + 1 + 1, fun hrest => .bind (.stepTo hword onWord rfl "else") ?_⟩
    exact .bind (.step hbody) (.bind (hblock _) hrest)

end Runs

/-! ## Statements -/

namespace StandsForStmt

variable {source : Source} {span span' span'' : Span} {condition iterable body : SyntaxNode}
  {nodes : List SyntaxNode} {e : Expr Unit} {stmts otherwise : List (Stmt Unit)} {item : String}

/-- An expression as a statement. -/
theorem expr {node : SyntaxNode} (onValue : StandsFor source node e) :
    StandsForStmt source (.branch .expressionStatement [node]) (.expr () e) := by
  refine .of_walk onValue.cuts rfl ?_
  rintro l fuel a rfl hlimit hfuel ha
  simp only [SyntaxNode.size_branch, SyntaxNode.sizes_cons, SyntaxNode.sizes_nil] at hlimit hfuel
  obtain ⟨e', he, rfl⟩ := onValue.lowers l l.limit rfl (by omega) (by omega)
  refine ⟨.expr a e', ?_, rfl⟩
  intro path
  refine .bind (ha path) (.bind .kind ?_)
  exact .bind (.enter rfl) (.bind (he _) (.bind .leave (.pure _ _)))

theorem pass (cuts : Cuts source span.start) :
    StandsForStmt source (.branch .passStatement [.leaf .keyword span]) (.pass ()) := by
  refine .of_walk cuts rfl ?_
  rintro l fuel a rfl hlimit hfuel ha
  exact ⟨.pass a, fun path => .bind (ha path) (.bind .kind (.pure _ _)), rfl⟩

theorem «while» (cuts : Cuts source span.start) (onCondition : StandsFor source condition e)
    (onBody : StandsForBlock source body stmts) :
    StandsForStmt source (.branch .whileStatement [.leaf .keyword span, condition, body])
      (.while () e stmts) := by
  refine .of_walk cuts rfl ?_
  rintro l fuel a rfl hlimit hfuel ha
  simp only [SyntaxNode.size_branch, SyntaxNode.size_leaf, SyntaxNode.sizes_cons,
    SyntaxNode.sizes_nil] at hlimit hfuel
  obtain ⟨e', he, rfl⟩ := onCondition.lowers l l.limit rfl (by omega) (by omega)
  obtain ⟨stmts', hblock, rfl⟩ := onBody l fuel a rfl (by omega) (by omega)
  refine ⟨.while a e' stmts', ?_, rfl⟩
  intro path
  refine .bind (ha path) (.bind .kind (.bind (.enter rfl) (.bind (.step rfl) ?_)))
  exact .bind (he _) (.bind (.step rfl) (.bind (hblock _) (.bind .leave (.pure _ _))))

theorem cond (cuts : Cuts source span.start) (onCondition : StandsFor source condition e)
    (onBody : StandsForBlock source body stmts) (onTail : TailRow source nodes otherwise) :
    StandsForStmt source (.branch .ifStatement (.leaf .keyword span :: condition :: body :: nodes))
      (.cond () e stmts otherwise) := by
  refine .of_walk cuts rfl ?_
  rintro l fuel a rfl hlimit hfuel ha
  simp only [SyntaxNode.size_branch, SyntaxNode.size_leaf, SyntaxNode.sizes_cons] at hlimit hfuel
  have hlength := SyntaxNode.length_le_sizes nodes
  obtain ⟨e', he, rfl⟩ := onCondition.lowers l l.limit rfl (by omega) (by omega)
  obtain ⟨stmts', hblock, rfl⟩ := onBody l fuel a rfl (by omega) (by omega)
  obtain ⟨otherwise', rfl, hrun⟩ := Runs.ifTail l fuel onTail rfl (by omega) (by omega) a
  refine ⟨.cond a e' stmts' otherwise', ?_, rfl⟩
  intro path
  obtain ⟨last, place, htail⟩ := hrun body
    (.branch .ifStatement (.leaf .keyword span :: condition :: body :: nodes)) 2 l.limit path rfl
    (by omega)
  refine .bind (ha path) (.bind .kind (.bind (.enter rfl) (.bind (.step rfl) ?_)))
  refine .bind (he _) (.bind (.step rfl) (.bind (hblock _) (.bind htail ?_)))
  exact .bind .leave (.pure _ _)

theorem «for» (cuts : Cuts source span.start) (onItem : Covers source span' item.toList)
    (onIterable : StandsFor source iterable e) (onBody : StandsForBlock source body stmts)
    (onElse : ElseRow source nodes otherwise) :
    StandsForStmt source (.branch .forStatement (.leaf .keyword span ::
      .leaf .variableName span' :: .leaf .keyword span'' :: iterable :: body :: nodes))
      (.for () item e stmts otherwise) := by
  refine .of_walk cuts rfl ?_
  rintro l fuel a rfl hlimit hfuel ha
  simp only [SyntaxNode.size_branch, SyntaxNode.size_leaf, SyntaxNode.sizes_cons] at hlimit hfuel
  obtain ⟨e', he, rfl⟩ := onIterable.lowers l l.limit rfl (by omega) (by omega)
  obtain ⟨stmts', hblock, rfl⟩ := onBody l fuel a rfl (by omega) (by omega)
  obtain ⟨otherwise', rfl, hrun⟩ := Runs.loopElse l fuel onElse rfl (by omega) (by omega) a
  refine ⟨.for a item e' stmts' otherwise', ?_, rfl⟩
  intro path
  obtain ⟨last, place, helse⟩ := hrun body (.branch .forStatement (.leaf .keyword span ::
    .leaf .variableName span' :: .leaf .keyword span'' :: iterable :: body :: nodes)) 4 path rfl
  refine .bind (ha path) (.bind .kind (.bind (.enter rfl) (.bind (.step rfl) ?_)))
  refine .bind (.isAt_true rfl) (.bind (.text_eq onItem) (.bind (.step rfl) (.bind (.step rfl) ?_)))
  refine .bind (he _) (.bind (.step rfl) (.bind (hblock _) ?_))
  exact helse (.bind .leave (.pure _ _))

end StandsForStmt

/-! ## Programs -/

namespace Runs

variable {source : Source} {node : SyntaxNode} {path : List (SyntaxNode × Nat)}
  {nodes : List SyntaxNode} {stmt : Stmt Unit} {stmts : List (Stmt Unit)} {l : Lowering}

/-- A node that stands for a statement is no variable, no function and no class. -/
theorem tests_false (h : StandsForStmt source node stmt) :
    Runs Lowering.isVarInit ⟨node, path⟩ false ⟨node, path⟩ ∧
      Runs Lowering.isFunDef ⟨node, path⟩ false ⟨node, path⟩ ∧
      Runs Lowering.isClassDef ⟨node, path⟩ false ⟨node, path⟩ := by
  have hkinds : ∀ kind : SyntaxKind, kind.mayDeclare = true → node.kind ≠ kind := by
    rintro _ hdeclares rfl
    exact absurd (hdeclares.symm.trans h.declaresNone) (by decide)
  refine ⟨?_, .isAt_false (hkinds _ rfl), .isAt_false (hkinds _ rfl)⟩
  exact .bind (.bind (.isAt_false (hkinds _ rfl)) (.pure _ _)) (.pure _ _)

/-- A program that starts with such a node has no declarations. -/
theorem declarations_nil (limit : Nat) (h : StandsForStmt source node stmt) :
    Runs (l.declarations (limit + 1) true) ⟨node, path⟩ ([], true) ⟨node, path⟩ := by
  obtain ⟨hvar, hfun, hclass⟩ := tests_false h
  have hnone : Runs l.declaration ⟨node, path⟩ none ⟨node, path⟩ :=
    .bind hvar (.bind hfun (.bind hclass (.pure _ _)))
  exact .bind hnone (.pure _ _)

/-- The walk from a node along its siblings gives the statements that they stand for. -/
theorem topStmts (l : Lowering) (onFirst : StandsForStmt source node stmt)
    (h : List.Forall₂ (StandsForStmt source) nodes stmts) (hsource : l.source = source)
    (hlimit : node.size + SyntaxNode.sizes nodes ≤ l.limit) :
    ∃ stmts', Stmt.bareAll stmts' = stmt :: stmts ∧
      ∀ (parent : SyntaxNode) (index limit : Nat) (path : List (SyntaxNode × Nat)),
        parent.children.drop (index + 1) = nodes → nodes.length + 1 < limit → ∃ last place,
          Runs (l.topStmts limit true) ⟨node, (parent, index) :: path⟩ stmts'
            ⟨last, (parent, place) :: path⟩ := by
  induction h generalizing node stmt with
  | nil =>
    obtain ⟨stmt', hstmt, rfl⟩ := onFirst.lowers l l.limit hsource (by omega) (by omega)
    refine ⟨[stmt'], rfl, ?_⟩
    intro parent index limit path hdrop hlength
    obtain ⟨limit, rfl⟩ : ∃ n, limit = n + 2 := ⟨limit - 2, by omega⟩
    obtain ⟨hvar, hfun, hclass⟩ := tests_false onFirst
    refine ⟨node, index, .bind (.bind hvar (.bind hfun (.bind hclass (hstmt _)))) ?_⟩
    refine .bind (.nextSibling_none (getElem?_of_drop_eq_nil hdrop)) ?_
    exact .bind (.pure _ _) (.pure _ _)
  | @cons next stmt' nodes stmts onNext onMore ih =>
    rw [SyntaxNode.sizes_cons] at hlimit
    obtain ⟨stmts', hbare, hrun⟩ := ih onNext (by omega)
    obtain ⟨stmt', hstmt, rfl⟩ := onFirst.lowers l l.limit hsource (by omega) (by omega)
    refine ⟨stmt' :: stmts', by rw [← hbare]; rfl, ?_⟩
    intro parent index limit path hdrop hlength
    rw [List.length_cons] at hlength
    obtain ⟨limit, rfl⟩ : ∃ n, limit = n + 1 := ⟨limit - 1, by omega⟩
    obtain ⟨hvar, hfun, hclass⟩ := tests_false onFirst
    obtain ⟨hnext, hdrop⟩ := getElem?_of_drop hdrop
    obtain ⟨last, place, hmore⟩ := hrun parent (index + 1) limit path hdrop (by omega)
    refine ⟨last, place, .bind (.bind hvar (.bind hfun (.bind hclass (hstmt _)))) ?_⟩
    exact .bind (.nextSibling hnext) (.bind hmore (.pure _ _))

end Runs

/-- The tree of a script. -/
def scriptTree (source : Source) (nodes : List SyntaxNode) : SyntaxNode :=
  ⟨.script, ⟨0, Source.byteSize source⟩, nodes⟩

/-- The program of a script of statements has these statements and nothing else. -/
theorem Runs.program (l : Lowering) {nodes : List SyntaxNode} {stmts : List (Stmt Unit)}
    (h : List.Forall₂ (StandsForStmt l.source) nodes stmts)
    (hlimit : SyntaxNode.sizes nodes + 2 ≤ l.limit) :
    ∃ note stmts', Runs l.program (Cursor.top (scriptTree l.source nodes))
      ⟨note, [], [], [], stmts'⟩ (Cursor.top (scriptTree l.source nodes)) ∧
      Stmt.bareAll stmts' = stmts := by
  have hlength := SyntaxNode.length_le_sizes nodes
  obtain ⟨limit, hsucc⟩ : ∃ n, l.limit = n + 1 := ⟨l.limit - 1, by omega⟩
  have hstart : Cuts l.source (scriptTree l.source nodes).span.start := ⟨[], l.source, rfl, rfl⟩
  obtain ⟨note, hnote⟩ := Runs.location hstart
  cases h with
  | nil =>
    refine ⟨note, [], ?_, rfl⟩
    refine .bind (hnote []) (.bind (.isAt_true rfl) ?_)
    have hnone : Runs Walk.firstChild (Cursor.top (scriptTree l.source [])) false
        (Cursor.top (scriptTree l.source [])) := rfl
    refine .bind hnone ?_
    rw [hsucc]
    exact .bind (.bind (.pure _ _) (.pure _ _)) (.bind (.pure _ _) (.pure _ _))
  | @cons node stmt nodes stmts onFirst onMore =>
    rw [SyntaxNode.sizes_cons] at hlimit
    rw [List.length_cons, SyntaxNode.sizes_cons] at hlength
    obtain ⟨stmts', hbare, hrun⟩ := Runs.topStmts l onFirst onMore rfl (by omega)
    obtain ⟨last, place, hstmts⟩ := hrun (scriptTree l.source (node :: nodes)) 0 l.limit [] rfl
      (by omega)
    refine ⟨note, stmts', ?_, hbare⟩
    refine .bind (hnote []) (.bind (.isAt_true rfl) (.bind (.firstChild rfl) ?_))
    have hdeclarations : Runs (l.declarations l.limit true)
        ⟨node, [(scriptTree l.source (node :: nodes), 0)]⟩ ([], true)
        ⟨node, [(scriptTree l.source (node :: nodes), 0)]⟩ := by
      rw [hsucc]
      exact .declarations_nil limit onFirst
    exact .bind hdeclarations (.bind hstmts (.bind .leave (.pure _ _)))

/-- The tree of a script of statements is lowered to a program with these statements and nothing
else. -/
theorem lower_script {source : Source} {nodes : List SyntaxNode} {stmts : List (Stmt Unit)}
    (h : List.Forall₂ (StandsForStmt source) nodes stmts) :
    ∃ note stmts', lower (scriptTree source nodes) source = .ok ⟨note, [], [], [], stmts'⟩ ∧
      Stmt.bareAll stmts' = stmts := by
  have hsize : (scriptTree source nodes).size = SyntaxNode.sizes nodes + 1 := rfl
  have hlimit : (Lowering.ofTree source (scriptTree source nodes)).limit =
      8 * ((scriptTree source nodes).size + 1) := rfl
  obtain ⟨note, stmts', hprogram, hbare⟩ :=
    Runs.program (Lowering.ofTree source (scriptTree source nodes)) h (by omega)
  refine ⟨note, stmts', ?_, hbare⟩
  exact congrArg (fun outcome => outcome.bind fun result => .ok result.1) hprogram

end Offside
