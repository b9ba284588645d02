import Offside.Proofs.Layout.Written
import Offside.Proofs.Lowering.Moves
import Offside.Proofs.Parsing.Shapes
import Offside.Proofs.Writing.LoweredLists
import Mathlib.Data.List.Forall2

/-!
# Walks along rows of phrases

A walk that succeeds has looked at the children of a phrase one after the other.  Where these
are known as phrases, each move of the walk leads to the next of them, and what the walk sees
there is what the words of the phrase say.

Main definitions:

- `Cursor.Facing`: a cursor at the first of some phrases in a row.
- `Lowering.reads`: whether a node is a certain keyword or mark.
- `Lowering.Wrote`: all words of a phrase are written in the source.
- `Walk.Yields`: a walk over a phrase comes back, with a value that has a property.

Main results:

- Theorem `collect_facing`: a repetition over a row gives what it gives at each phrase.
- Theorem `listUntil_facing`: a list up to a closing bracket gives one value for each phrase
  that is no comma.
-/

namespace Offside

/-! ## Places in a row -/

/-- A cursor at a child of the node under another one; this child and those to its right are
the nodes of some phrases. -/
def Cursor.Facing (c : Cursor) (phrases : List Phrase) (d : Cursor) : Prop :=
  ∃ index, c.child? index = some d ∧ c.node.children.drop index = phrases.map Phrase.node

namespace Cursor

variable {c d e : Cursor} {phrase next : Phrase} {phrases : List Phrase}

/-- A cursor that faces a row is at a child. -/
theorem Facing.under (h : c.Facing phrases d) : c.Under d := by
  rcases h with ⟨index, hindex, -⟩
  exact ⟨index, hindex⟩

/-- It is at the node of the first phrase of the row. -/
theorem Facing.node_eq (h : c.Facing (phrase :: phrases) d) : d.node = phrase.node := by
  rcases h with ⟨index, hindex, hdrop⟩
  rcases child?_eq_some hindex with ⟨child, hchild, rfl⟩
  have hfirst := (getElem?_of_drop hdrop).1
  exact Option.some.inj (hchild.symm.trans hfirst)

/-- The first child faces all children. -/
theorem facing_of_child?_zero (hchildren : c.node.children = phrases.map Phrase.node)
    (h : c.child? 0 = some d) : c.Facing phrases d :=
  ⟨0, h, hchildren⟩

/-- Its next sibling faces the rest of the row. -/
theorem Facing.nextSibling? (h : c.Facing (phrase :: next :: phrases) d) :
    ∃ e, d.nextSibling? = some e ∧ c.Facing (next :: phrases) e := by
  rcases h with ⟨index, hindex, hdrop⟩
  obtain ⟨-, hmore⟩ := getElem?_of_drop hdrop
  have hnext : c.node.children[index + 1]? = some next.node := (getElem?_of_drop hmore).1
  have hchild : c.child? (index + 1) = some ⟨next.node, (c.node, index + 1) :: c.path⟩ := by
    simp [child?, hnext]
  refine ⟨_, ?_, index + 1, hchild, hmore⟩
  rw [Walk.nextSibling?_of_child? hindex, hchild]

/-- At the last phrase of a row there is no next sibling. -/
theorem Facing.nextSibling?_last (h : c.Facing [phrase] d) : d.nextSibling? = none := by
  rcases h with ⟨index, hindex, hdrop⟩
  have hnone : c.node.children[index + 1]? = none := by
    rw [← List.head?_drop, (getElem?_of_drop hdrop).2]
    rfl
  rw [Walk.nextSibling?_of_child? hindex, child?, hnone]
  rfl

end Cursor

/-! ## What is seen -/

/-- Whether a node is the given keyword or mark. -/
def Lowering.reads (l : Lowering) (node : SyntaxNode) (word : String) : Bool :=
  node.kind.isFixedText && l.textOf node.span = word

namespace Lowering

variable {l : Lowering} {token : Token} {kind : SyntaxKind} {word : String}

/-- The span of a word that is written in the source has its text. -/
theorem textOf_written (h : token.WrittenIn l.source) (hstring : token.kind ≠ .string) :
    l.textOf token.span = token.text :=
  textOf_eq (h.covers hstring)

/-- A keyword or mark reads as its text. -/
theorem reads_ofToken (h : token.WrittenIn l.source) {text : String}
    (hlexeme : token.kind.lexeme? = some text) (hkind : kind.isFixedText = true) :
    l.reads (Phrase.ofToken kind token).node word = decide (text = word) := by
  have hstring : token.kind ≠ .string := by
    intro hstring
    rw [hstring] at hlexeme
    cases hlexeme
  have htext : l.textOf (Phrase.ofToken kind token).node.span = text :=
    (textOf_written h hstring).trans (h.lexeme text hlexeme)
  have hfixed : (Phrase.ofToken kind token).node.kind.isFixedText = true := hkind
  simp [reads, hfixed, htext]

/-- A node with a text of its own reads as no keyword or mark. -/
theorem reads_of_not_fixed {node : SyntaxNode} (h : node.kind.isFixedText = false)
    (word : String) : l.reads node word = false := by
  simp [reads, h]

/-- A mark that reads as one word does not read as another. -/
theorem reads_eq_false {node : SyntaxNode} {word other : String} (h : l.reads node word = true)
    (hne : word ≠ other) : l.reads node other = false := by
  simp only [reads, Bool.and_eq_true, decide_eq_true_eq] at h
  simp [reads, h.2, hne]

end Lowering

/-- All words of a phrase are written in the source. -/
def Lowering.Wrote (l : Lowering) (phrase : Phrase) : Prop :=
  ∀ token ∈ phrase.words, token.WrittenIn l.source

namespace Lowering

variable {l : Lowering}

/-- A single token is written if it is as a token. -/
@[simp]
theorem wrote_ofToken {kind : SyntaxKind} {token : Token} :
    l.Wrote (Phrase.ofToken kind token) ↔ token.WrittenIn l.source := by
  simp [Wrote]

/-- A phrase is written if its parts are. -/
@[simp]
theorem wrote_group {kind : SyntaxKind} {phrases : List Phrase} :
    l.Wrote (Phrase.group kind phrases) ↔ ∀ phrase ∈ phrases, l.Wrote phrase := by
  simp only [Wrote, Phrase.words_group, List.mem_flatMap]
  exact ⟨fun h phrase hphrase token htoken => h token ⟨phrase, hphrase, htoken⟩,
    fun h token ⟨phrase, hphrase, htoken⟩ => h phrase hphrase token htoken⟩

/-- Phrases whose words make up those of a phrase are written where it is. -/
theorem Wrote.of_words {phrase : Phrase} {parts : List Phrase} (h : l.Wrote phrase)
    (hwords : phrase.words = parts.flatMap Phrase.words) : ∀ part ∈ parts, l.Wrote part := by
  intro part hpart token htoken
  apply h token
  rw [hwords]
  exact List.mem_flatMap.mpr ⟨part, hpart, htoken⟩

end Lowering

/-- No expression is a keyword or a mark. -/
theorem Phrase.IsExpr.isFixedText {phrase : Phrase} (h : phrase.IsExpr) :
    phrase.node.kind.isFixedText = false := by
  cases h with
  | @comprehension kind _ _ _ _ _ _ _ isOpening | @filtered kind _ _ _ _ _ _ _ _ _ isOpening =>
    change kind.isFixedText = false
    cases kind <;> first | rfl | cases isOpening
  | _ => rfl

/-- A mark of one kind reads as the text of its kind. -/
theorem Phrase.IsMark.reads_eq {l : Lowering} {kind : TokenKind} {phrase : Phrase}
    {text word : String} (h : phrase.IsMark (· = kind)) (hlexeme : kind.lexeme? = some text)
    (hwrote : l.Wrote phrase) : l.reads phrase.node word = decide (text = word) := by
  rcases h with ⟨token, hkind, rfl⟩
  exact Lowering.reads_ofToken (Lowering.wrote_ofToken.mp hwrote) (hkind ▸ hlexeme) rfl

/-- A mark that is written as one word is not another. -/
theorem Phrase.IsMark.reads {l : Lowering} {accepts : TokenKind → Prop} {phrase : Phrase}
    (h : phrase.IsMark accepts) (hwrote : l.Wrote phrase) {word : String}
    (hword : ∀ kind, accepts kind → ∃ text, kind.lexeme? = some text ∧ text ≠ word) :
    l.reads phrase.node word = false := by
  rcases h with ⟨token, haccepts, rfl⟩
  rcases hword _ haccepts with ⟨text, hlexeme, hne⟩
  rw [Lowering.reads_ofToken (Lowering.wrote_ofToken.mp hwrote) hlexeme rfl]
  exact decide_eq_false hne

/-- A walk that ends gives what it promises if it succeeds. -/
theorem Terminates.onSuccess {σ α : Type} {program : StateT σ Outcome α} {first : σ}
    {post : α → σ → Prop} (h : Terminates program first post) : OnSuccess program first post := by
  unfold Terminates Meets at h
  unfold OnSuccess Meets
  split <;> simp_all

/-! ## Moves and looks -/

namespace Walk

variable {α β : Type} {c d : Cursor} {phrase other : Phrase} {phrases : List Phrase}
  {post : β → Cursor → Prop} {l : Lowering}

/-- A walk that enters a phrase faces all its parts. -/
theorem runs_firstChild_facing (hchildren : c.node.children = (phrase :: phrases).map Phrase.node) :
    ∃ d, Runs firstChild c true d ∧ c.Facing (phrase :: phrases) d := by
  have hchild : c.child? 0 = some ⟨phrase.node, (c.node, 0) :: c.path⟩ := by
    simp [Cursor.child?, hchildren]
  exact ⟨_, runs_firstChild hchild, Cursor.facing_of_child?_zero hchildren hchild⟩

/-- A phrase is entered at its first part. -/
theorem enter_facing {kind : SyntaxKind} {next : Unit → Walk β}
    (h : c.node = (Phrase.group kind (phrase :: phrases)).node)
    (hnext : ∀ d, c.Facing (phrase :: phrases) d → OnSuccess (next ()) d post) :
    OnSuccess (enter >>= next) c post := by
  have hchildren : c.node.children = (phrase :: phrases).map Phrase.node := by rw [h]; rfl
  rcases runs_firstChild_facing hchildren with ⟨d, hruns, hd⟩
  exact .bind_runs (.bind hruns (.pure _ _)) (hnext d hd)

/-- So does what follows a look at whether there is a part to enter. -/
theorem firstChild_facing {kind : SyntaxKind} {next : Bool → Walk β}
    (h : c.node = (Phrase.group kind (phrase :: phrases)).node)
    (hnext : ∀ d, c.Facing (phrase :: phrases) d → OnSuccess (next true) d post) :
    OnSuccess (firstChild >>= next) c post := by
  have hchildren : c.node.children = (phrase :: phrases).map Phrase.node := by rw [h]; rfl
  rcases runs_firstChild_facing hchildren with ⟨d, hruns, hd⟩
  exact .bind_runs hruns (hnext d hd)

/-- A step leads to the next phrase of the row. -/
theorem runs_nextSibling_facing (h : c.Facing (phrase :: other :: phrases) d) :
    ∃ e, Runs nextSibling d true e ∧ c.Facing (other :: phrases) e := by
  rcases h.nextSibling? with ⟨e, he, hfacing⟩
  refine ⟨e, ?_, hfacing⟩
  simp [Runs, nextSibling, go, Move.target?, he]

/-- At the last phrase of the row a step leads nowhere. -/
theorem runs_nextSibling_last (h : c.Facing [phrase] d) : Runs nextSibling d false d := by
  simp [Runs, nextSibling, go, Move.target?, h.nextSibling?_last]

/-- What follows a step goes on at the next phrase. -/
theorem nextSibling_facing {next : Bool → Walk β} (h : c.Facing (phrase :: other :: phrases) d)
    (hnext : ∀ e, c.Facing (other :: phrases) e → OnSuccess (next true) e post) :
    OnSuccess (nextSibling >>= next) d post := by
  rcases runs_nextSibling_facing h with ⟨e, hruns, he⟩
  exact .bind_runs hruns (hnext e he)

/-- What follows a step at the last phrase knows that there is no more. -/
theorem nextSibling_last {next : Bool → Walk β} (h : c.Facing [phrase] d)
    (hnext : OnSuccess (next false) d post) : OnSuccess (nextSibling >>= next) d post :=
  .bind_runs (runs_nextSibling_last h) hnext

/-- So it is with a step that does not look at whether it succeeds. -/
theorem step_facing {next : Unit → Walk β} (h : c.Facing (phrase :: other :: phrases) d)
    (hnext : ∀ e, c.Facing (other :: phrases) e → OnSuccess (next ()) e post) :
    OnSuccess (step >>= next) d post := by
  rcases runs_nextSibling_facing h with ⟨e, hruns, he⟩
  exact .bind_runs (.bind hruns (.pure _ _)) (hnext e he)

/-- A walk that goes back goes on at the phrase around. -/
theorem leave_under {next : Unit → Walk β} (h : c.Under d)
    (hnext : OnSuccess (next ()) c post) : OnSuccess (leave >>= next) d post :=
  .bind_runs (runs_leave h) hnext

/-- The kind of the node is that of the phrase. -/
theorem kind_facing {next : SyntaxKind → Walk β} (h : d.node = phrase.node)
    (hnext : OnSuccess (next phrase.kind) d post) : OnSuccess (kind >>= next) d post := by
  have hruns : Runs kind d d.node.kind d := rfl
  rw [h] at hruns
  exact .bind_runs hruns hnext

/-- A test for a kind is about the kind of the phrase. -/
theorem isAt_facing {kind : SyntaxKind} {next : Bool → Walk β} (h : d.node = phrase.node)
    (hnext : OnSuccess (next (decide (phrase.kind = kind))) d post) :
    OnSuccess (isAt kind >>= next) d post := by
  have hruns : Runs (isAt kind) d (decide (d.node.kind = kind)) d := rfl
  rw [h] at hruns
  exact .bind_runs hruns hnext

/-- A second test is made only at a node of the right kind. -/
theorem isAt_andAlso_facing {kind : SyntaxKind} {second : Walk Bool} {next : Bool → Walk β}
    (h : d.node = phrase.node)
    (hyes : phrase.kind = kind → OnSuccess (second >>= next) d post)
    (hno : phrase.kind ≠ kind → OnSuccess (next false) d post) :
    OnSuccess (andAlso (isAt kind) second >>= next) d post := by
  have htest : Runs (isAt kind) d (decide (phrase.kind = kind)) d := by
    rw [Phrase.kind, ← h]
    rfl
  by_cases hkind : phrase.kind = kind
  · rw [decide_eq_true hkind] at htest
    have hboth : andAlso (isAt kind) second d = second d := Runs.bind_eq htest
    have hbind : (andAlso (isAt kind) second >>= next) d = (second >>= next) d :=
      congrArg (fun outcome => outcome.bind fun entry => next entry.1 entry.2) hboth
    unfold OnSuccess Meets
    rw [hbind]
    exact hyes hkind
  · rw [decide_eq_false hkind] at htest
    exact .bind_runs (.bind htest (.pure _ _)) (hno hkind)

/-- The text of the node is that of the phrase. -/
theorem text_facing {next : String → Walk β} (h : d.node = phrase.node)
    (hnext : OnSuccess (next (l.textOf phrase.node.span)) d post) :
    OnSuccess (l.text >>= next) d post := by
  have hruns : Runs l.text d (l.textOf d.node.span) d := .text
  rw [h] at hruns
  exact .bind_runs hruns hnext

/-- A test for a keyword or mark says what the node reads as. -/
theorem runs_isToken (word : String) (d : Cursor) :
    Runs (l.isToken word) d (l.reads d.node word) d := by
  refine Runs.bind .kind ?_
  cases hkind : d.node.kind.isFixedText with
  | true =>
    simp only [if_true, Lowering.reads, hkind, Bool.true_and]
    rfl
  | false =>
    rw [Lowering.reads_of_not_fixed hkind]
    rfl

/-- What follows such a test may use its answer. -/
theorem isToken_facing {word : String} {next : Bool → Walk β} (h : d.node = phrase.node)
    (hnext : OnSuccess (next (l.reads phrase.node word)) d post) :
    OnSuccess (l.isToken word >>= next) d post := by
  have hruns := runs_isToken (l := l) word d
  rw [h] at hruns
  exact .bind_runs hruns hnext

/-- A step to a keyword or mark tells whether the next phrase is one. -/
theorem stepTo_facing {word : String} {next : Bool → Walk β}
    (h : c.Facing (phrase :: other :: phrases) d)
    (hnext : ∀ e, c.Facing (other :: phrases) e →
      OnSuccess (next (l.reads other.node word)) e post) :
    OnSuccess (l.stepTo word >>= next) d post := by
  have hstep : OnSuccess (l.stepTo word) d fun found e =>
      found = l.reads other.node word ∧ c.Facing (other :: phrases) e := by
    apply nextSibling_facing h
    intro e he
    have hruns := runs_isToken (l := l) word e
    rw [he.node_eq] at hruns
    exact .runs hruns ⟨rfl, he⟩
  apply hstep.bind
  rintro _ e ⟨rfl, he⟩
  exact hnext e he

/-- At the last phrase of a row there is no keyword or mark to step to. -/
theorem stepTo_last {word : String} {next : Bool → Walk β} (h : c.Facing [phrase] d)
    (hnext : OnSuccess (next false) d post) : OnSuccess (l.stepTo word >>= next) d post := by
  have hstep : OnSuccess (l.stepTo word) d fun found e => found = false ∧ e = d :=
    nextSibling_last h (.pure ⟨rfl, rfl⟩)
  apply hstep.bind
  rintro _ _ ⟨rfl, rfl⟩
  exact hnext

/-- A walk that asks for its location goes on with it if there is one. -/
theorem location_bind {next : Location → Walk β}
    (hnext : ∀ a, Outcome.locate l.source d.node.span.start = .ok a →
      OnSuccess (next a) d post) : OnSuccess (l.location >>= next) d post := by
  have hlocation : OnSuccess l.location d fun a last =>
      last = d ∧ Outcome.locate l.source d.node.span.start = .ok a := by
    have hrun : l.location d =
        (Outcome.locate l.source d.node.span.start).bind fun a => .ok (a, d) := rfl
    unfold OnSuccess Meets
    rw [hrun]
    cases Outcome.locate l.source d.node.span.start with
    | error failure => trivial
    | ok a => exact ⟨rfl, rfl⟩
  apply hlocation.bind
  rintro a _ ⟨rfl, ha⟩
  exact hnext a ha

/-- A refusal has no success of which something is asked. -/
theorem refuse_facing {cause : Cause} : OnSuccess (l.refuse cause : Walk β) d post :=
  location_bind fun _ _ => .throw trivial

/-- A walk that always fails has none either. -/
theorem onSuccess_throws {walk : Walk Failure} :
    OnSuccess (do throw (← walk) : Walk β) d post :=
  (onSuccess_true walk).bind fun _ _ _ => .throw trivial

/-! ## Walks over phrases -/

/-- A walk over a phrase, wherever it is part of a tree, comes back if it succeeds, and its value
has a property. -/
def Yields (walk : Walk α) (R : α → Prop) (phrase : Phrase) : Prop :=
  ∀ d : Cursor, d.node = phrase.node → OnSuccess walk d fun value last => last = d ∧ R value

/-- What a walk yields is handed on to the next one. -/
theorem Yields.bind {walk : Walk α} {R : α → Prop} {next : α → Walk β}
    (h : Yields walk R phrase) (hd : d.node = phrase.node)
    (hnext : ∀ value, R value → OnSuccess (next value) d post) :
    OnSuccess (walk >>= next) d post := by
  apply (h d hd).bind
  rintro value _ ⟨rfl, hvalue⟩
  exact hnext value hvalue

/-- A property of what is yielded may be weakened. -/
theorem Yields.mono {walk : Walk α} {R R' : α → Prop} (h : Yields walk R phrase)
    (himp : ∀ value, R value → R' value) : Yields walk R' phrase :=
  fun d hd => (h d hd).mono fun _ _ hlast => ⟨hlast.1, himp _ hlast.2⟩

/-! ## Repetitions -/

/-- A repetition that does not stop at the next phrase goes on from where it comes to there. -/
theorem collect_step {stop : Walk Bool} {item : Walk (List α)} {limit : Nat}
    {between post : List α → Cursor → Prop} (h : c.Facing (phrase :: other :: phrases) d)
    (hstop : ∀ e, c.Facing (other :: phrases) e → Runs stop e false e)
    (hitem : ∀ e, c.Facing (other :: phrases) e → OnSuccess item e between)
    (hmore : ∀ values e, between values e →
      OnSuccess (collect stop item limit) e fun more last => post (values ++ more) last) :
    OnSuccess (collect stop item (limit + 1)) d post := by
  apply nextSibling_facing h
  intro e he
  apply Meets.bind_runs (hstop e he)
  apply (hitem e he).bind
  intro values f hf
  apply (hmore values f hf).bind
  intro more last hlast
  exact .pure hlast

/-- A repetition over the phrases to the right, up to the end or to a phrase where it stops,
gives what it gives at each of them. -/
theorem collect_facing {stop : Walk Bool} {item : Walk (List α)} (stops : SyntaxNode → Bool)
    (R : Phrase → List α → Prop) {items rest : List Phrase}
    (hstop : ∀ d, Runs stop d (stops d.node) d)
    (hitems : ∀ part ∈ items, stops part.node = false ∧ Yields item (R part) part)
    (hrest : ∀ closing ∈ rest.head?, stops closing.node = true) {limit : Nat}
    (h : c.Facing (phrase :: (items ++ rest)) d) :
    OnSuccess (collect stop item limit) d fun values last =>
      c.Under last ∧ ∃ groups, List.Forall₂ R items groups ∧ values = groups.flatten := by
  induction limit generalizing phrase items d with
  | zero => exact .throw trivial
  | succ limit ih =>
    cases items with
    | nil =>
      cases rest with
      | nil => exact nextSibling_last h (.pure ⟨h.under, [], .nil, rfl⟩)
      | cons closing rest =>
        apply nextSibling_facing h
        intro e he
        refine .bind_runs (hstop e) ?_
        rw [he.node_eq, hrest closing rfl]
        exact .pure ⟨he.under, [], .nil, rfl⟩
    | cons first items =>
      obtain ⟨hgoes, hfirst⟩ := hitems first List.mem_cons_self
      have hone (e : Cursor) (he : c.Facing (first :: (items ++ rest)) e) :
          OnSuccess item e fun values last =>
            c.Facing (first :: (items ++ rest)) last ∧ R first values := by
        apply (hfirst e he.node_eq).mono
        rintro values _ ⟨rfl, hvalues⟩
        exact ⟨he, hvalues⟩
      apply collect_step h (fun e he => by simpa only [he.node_eq, hgoes] using hstop e) hone
      rintro values e ⟨he, hvalues⟩
      apply (ih (fun part hpart => hitems part (List.mem_cons_of_mem _ hpart)) he).mono
      rintro _ last ⟨hlast, groups, hgroups, rfl⟩
      exact ⟨hlast, values :: groups, .cons hvalues hgroups, rfl⟩

section Lists

variable {item : Walk (List α)} {word : String} {limit : Nat} {post : List α → Cursor → Prop}

/-- A comma in a list is passed over. -/
theorem comma_step (h : c.Facing (phrase :: other :: phrases) d)
    (hgoes : l.reads other.node word = false) (hcomma : l.reads other.node "," = true)
    (hmore : ∀ e, c.Facing (other :: phrases) e → OnSuccess (collect (l.isToken word) (do
      if ← l.isToken "," then return [] else item) limit) e post) :
    OnSuccess (collect (l.isToken word) (do
      if ← l.isToken "," then return [] else item) (limit + 1)) d post := by
  have hpass (e : Cursor) (he : c.Facing (other :: phrases) e) :
      OnSuccess (do if ← l.isToken "," then return [] else item) e
        fun values last => values = [] ∧ c.Facing (other :: phrases) last := by
    apply isToken_facing he.node_eq
    rw [hcomma]
    exact .pure ⟨rfl, he⟩
  apply collect_step h (fun e he => by rw [← hgoes, ← he.node_eq]; exact runs_isToken word e) hpass
  rintro _ e ⟨rfl, he⟩
  exact hmore e he

/-- What is no comma in a list is an item. -/
theorem item_step {between : List α → Cursor → Prop} (h : c.Facing (phrase :: other :: phrases) d)
    (hgoes : l.reads other.node word = false) (hcomma : l.reads other.node "," = false)
    (hitem : ∀ e, c.Facing (other :: phrases) e → OnSuccess item e between)
    (hmore : ∀ values e, between values e → OnSuccess (collect (l.isToken word) (do
      if ← l.isToken "," then return [] else item) limit) e
        fun more last => post (values ++ more) last) :
    OnSuccess (collect (l.isToken word) (do
      if ← l.isToken "," then return [] else item) (limit + 1)) d post := by
  have hgives (e : Cursor) (he : c.Facing (other :: phrases) e) :
      OnSuccess (do if ← l.isToken "," then return [] else item) e between := by
    apply isToken_facing he.node_eq
    rw [hcomma]
    exact hitem e he
  exact collect_step h (fun e he => by rw [← hgoes, ← he.node_eq]; exact runs_isToken word e)
    hgives hmore

end Lists

/-- Groups with nothing at the phrases that are skipped are those of the others. -/
theorem forall₂_filter_of_groups {R : Phrase → List α → Prop} {skips : Phrase → Bool}
    {items : List Phrase} {groups : List (List α)}
    (h : List.Forall₂ (fun part values => if skips part then values = [] else R part values)
      items groups) :
    ∃ kept, List.Forall₂ R (items.filter fun part => !skips part) kept ∧
      groups.flatten = kept.flatten := by
  induction h with
  | nil => exact ⟨[], .nil, rfl⟩
  | @cons part values items groups hpart _ ih =>
    rcases ih with ⟨kept, hkept, hflatten⟩
    cases hskips : skips part with
    | true =>
      rw [hskips] at hpart
      refine ⟨kept, by simpa [hskips] using hkept, ?_⟩
      rw [List.flatten_cons, show values = [] from hpart, hflatten]
      rfl
    | false =>
      rw [hskips] at hpart
      refine ⟨values :: kept, ?_, ?_⟩
      · rw [List.filter_cons_of_pos (by simp [hskips])]
        exact .cons hpart hkept
      · rw [List.flatten_cons, List.flatten_cons, hflatten]

/-- A list up to a closing bracket gives what it gives at each phrase that is no comma. -/
theorem listUntil_facing {item : Walk (List α)} {word : String} {R : Phrase → List α → Prop}
    {items : List Phrase} {closing : Phrase}
    (hitems : ∀ part ∈ items, l.reads part.node word = false ∧
      (l.reads part.node "," = false → Yields item (R part) part))
    (hclosing : l.reads closing.node word = true)
    (h : c.Facing (phrase :: (items ++ [closing])) d) :
    OnSuccess (l.listUntil word item) d fun values last => c.Under last ∧
      ∃ groups, List.Forall₂ R (items.filter fun part => !l.reads part.node ",") groups ∧
        values = groups.flatten := by
  apply (collect_facing (fun node => l.reads node word)
    (fun part values => if l.reads part.node "," then values = [] else R part values)
    (fun d => runs_isToken word d) ?_ ?_ h).mono
  · rintro _ last ⟨hlast, groups, hgroups, rfl⟩
    rcases forall₂_filter_of_groups hgroups with ⟨kept, hkept, hflatten⟩
    exact ⟨hlast, kept, hkept, hflatten⟩
  · intro part hpart
    obtain ⟨hgoes, hgives⟩ := hitems part hpart
    refine ⟨hgoes, ?_⟩
    intro e he
    apply isToken_facing he
    cases hcomma : l.reads part.node "," with
    | true => exact .pure ⟨rfl, rfl⟩
    | false => exact hgives hcomma e he
  · intro other hother
    cases hother
    exact hclosing

/-- Values in groups of one. -/
theorem forall₂_flatten {R : Phrase → α → Prop} {items : List Phrase} {groups : List (List α)}
    (h : List.Forall₂ (fun part values => ∃ value, values = [value] ∧ R part value)
      items groups) : List.Forall₂ R items groups.flatten := by
  induction h with
  | nil => exact .nil
  | cons hpart _ ih =>
    rcases hpart with ⟨value, rfl, hvalue⟩
    exact .cons hvalue ih

/-- Each phrase of a row has its value. -/
theorem exists_of_forall₂ {R : Phrase → α → Prop} {items : List Phrase} {values : List α}
    (h : List.Forall₂ R items values) {part : Phrase} (hpart : part ∈ items) :
    ∃ value, R part value := by
  induction h with
  | nil => cases hpart
  | cons hfirst _ ih =>
    rcases List.mem_cons.mp hpart with rfl | hmore
    · exact ⟨_, hfirst⟩
    · exact ih hmore

/-- A list between commas gives what it gives at each phrase of the list, if it gives nothing
for a colon. -/
theorem listItems_facing {item : Walk (List α)} {word : String} {R : Phrase → List α → Prop}
    {items : List Phrase} {closing : Phrase} (hword : word ≠ ":" ∧ word ≠ ",")
    (hitem : ∀ part ∈ items, Yields item (R part) part)
    (hvalue : ∀ part values, R part values → part.kind ≠ .punctuation)
    (hmarks : ∀ part ∈ items, part.kind = .punctuation →
      part.IsMark fun kind => kind = .colon ∨ kind = .comma)
    (hexprs : ∀ part ∈ items, part.kind ≠ .punctuation → part.IsExpr)
    (hwrote : ∀ part ∈ items, l.Wrote part) (hclosing : l.reads closing.node word = true)
    (h : c.Facing (phrase :: (items ++ [closing])) d) :
    OnSuccess (l.listUntil word item) d fun values last => c.Under last ∧
      Phrase.CommasOnly items ∧
      ∃ groups, List.Forall₂ R (Phrase.between items) groups ∧ values = groups.flatten := by
  apply (listUntil_facing (R := R) ?_ hclosing h).mono
  · rintro _ last ⟨hlast, groups, hgroups, rfl⟩
    have hcommas : Phrase.CommasOnly items := by
      intro part hpart hkind
      rcases hmarks part hpart hkind with ⟨token, hcolon | hcomma, rfl⟩
      · have hreads : l.reads (Phrase.ofToken .punctuation token).node "," = decide (":" = ",") :=
          Lowering.reads_ofToken (Lowering.wrote_ofToken.mp (hwrote _ hpart))
            (by rw [hcolon]; rfl) rfl
        have hkept : Phrase.ofToken .punctuation token ∈
            items.filter fun part => !l.reads part.node "," :=
          List.mem_filter.mpr ⟨hpart, by rw [hreads]; rfl⟩
        rcases exists_of_forall₂ hgroups hkept with ⟨values, hvalues⟩
        exact absurd rfl (hvalue _ values hvalues)
      · exact ⟨token, hcomma, rfl⟩
    refine ⟨hlast, hcommas, groups, ?_, rfl⟩
    rwa [Phrase.between, List.filter_congr fun part hpart => ?_]
    by_cases hkind : part.kind = .punctuation
    · rcases hcommas part hpart hkind with ⟨token, hcomma, rfl⟩
      rw [Lowering.reads_ofToken (Lowering.wrote_ofToken.mp (hwrote _ hpart))
        (by rw [hcomma]; rfl) rfl]
      rfl
    · rw [Lowering.reads_of_not_fixed (hexprs part hpart hkind).isFixedText]
      simp [hkind]
  · intro part hpart
    refine ⟨?_, fun _ => hitem part hpart⟩
    by_cases hkind : part.kind = .punctuation
    · apply (hmarks part hpart hkind).reads (hwrote part hpart)
      rintro _ (rfl | rfl)
      · exact ⟨":", rfl, hword.1.symm⟩
      · exact ⟨",", rfl, hword.2.symm⟩
    · exact Lowering.reads_of_not_fixed (hexprs part hpart hkind).isFixedText _

/-- A list of phrases between commas gives one value for each of them.  A colon is none of
them. -/
theorem listOf_facing {inner : Walk α} {word : String} {R : Phrase → α → Prop}
    {items : List Phrase} {closing : Phrase} (hword : word ≠ ":" ∧ word ≠ ",")
    (hinner : ∀ part ∈ items, Yields inner (R part) part)
    (hvalue : ∀ part value, R part value → part.kind ≠ .punctuation)
    (hmarks : ∀ part ∈ items, part.kind = .punctuation →
      part.IsMark fun kind => kind = .colon ∨ kind = .comma)
    (hexprs : ∀ part ∈ items, part.kind ≠ .punctuation → part.IsExpr)
    (hwrote : ∀ part ∈ items, l.Wrote part) (hclosing : l.reads closing.node word = true)
    (h : c.Facing (phrase :: (items ++ [closing])) d) :
    OnSuccess (l.listUntil word do return [← inner]) d fun values last =>
      c.Under last ∧ Phrase.CommasOnly items ∧ List.Forall₂ R (Phrase.between items) values := by
  apply (listItems_facing (R := fun part values => ∃ value, values = [value] ∧ R part value)
    hword ?_ ?_ hmarks hexprs hwrote hclosing h).mono
  · rintro _ last ⟨hlast, hcommas, groups, hgroups, rfl⟩
    exact ⟨hlast, hcommas, forall₂_flatten hgroups⟩
  · intro part hpart e he
    apply (hinner part hpart).bind he
    intro value hvalue
    exact .pure ⟨rfl, value, rfl, hvalue⟩
  · rintro part _ ⟨value, -, hpart⟩
    exact hvalue part value hpart

end Walk
end Offside
