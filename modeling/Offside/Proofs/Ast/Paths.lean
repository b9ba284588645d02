import Offside.Proofs.Ast.Nesting

/-!
# Paths of control flow

The ways a run may take through statements, when nothing is known of its values: a conditional may
take either branch, a loop may run any number of rounds, and the block behind a `for` loop runs
when the loop is over, or is left out when the loop was broken.  A path also tells which blocks of
loops it leaves behind without having returned in them.

Main definitions:

- `Exit`: how statements end.
- `Stmt.Path`, `Stmt.PathAll` and `Stmt.Rounds`: paths through a statement, a block and a loop.
- `Stmt.mayExit`: how a statement may end, as a function.
- `HoldsReturn`: a return stands in a block.

Main results:

- Theorem `Stmt.exists_pathAll_iff`: a block may end in some way if a path through it does.
-/

namespace Offside

variable {α : Type}

/-- How statements end: behind the last one, or by a jump. -/
inductive Exit where
  | through
  | break
  | continue
  | return
  deriving DecidableEq, Repr

/-- A statement that neither jumps nor has statements in it. -/
def Stmt.isStep : Stmt α → Bool
  | .assign .. | .fieldAssign .. | .indexAssign .. | .expr .. | .pass _ => true
  | _ => false

mutual

/-- `s.Path left exit`: a path through the statement `s` that ends with `exit`.  It has left behind
the blocks `left` without a return in them: of loops that it has come to the end of, however many
rounds they ran, and those behind broken loops that it left out. -/
inductive Stmt.Path : Stmt α → List (List (Stmt α)) → Exit → Prop where
  | step {s : Stmt α} (isStep : s.isStep = true) : Path s [] .through
  | return {note : α} {value : Expr α} : Path (.return note value) [] .return
  | break {note : α} : Path (.break note) [] .break
  | continue {note : α} : Path (.continue note) [] .continue
  | condBody {note : α} {condition : Expr α} {body otherwise : List (Stmt α)}
      {left : List (List (Stmt α))} {exit : Exit} (onBody : Stmt.PathAll body left exit) :
      Path (.cond note condition body otherwise) left exit
  | condOtherwise {note : α} {condition : Expr α} {body otherwise : List (Stmt α)}
      {left : List (List (Stmt α))} {exit : Exit} (onOtherwise : Stmt.PathAll otherwise left exit) :
      Path (.cond note condition body otherwise) left exit
  | while {note : α} {condition : Expr α} {body : List (Stmt α)} {exit : Exit}
      (rounds : Stmt.Rounds body exit) (finished : exit ≠ .return) :
      Path (.while note condition body) [body] .through
  | whileReturn {note : α} {condition : Expr α} {body : List (Stmt α)}
      (rounds : Stmt.Rounds body .return) : Path (.while note condition body) [] .return
  | for {note : α} {item : String} {iterable : Expr α} {body otherwise : List (Stmt α)}
      {left : List (List (Stmt α))} {exit exit' : Exit} (rounds : Stmt.Rounds body exit)
      (finished : exit ≠ .return) (onOtherwise : Stmt.PathAll otherwise left exit') :
      Path (.for note item iterable body otherwise) (body :: left) exit'
  | forBreak {note : α} {item : String} {iterable : Expr α} {body otherwise : List (Stmt α)}
      (rounds : Stmt.Rounds body .break) :
      Path (.for note item iterable body otherwise) [body, otherwise] .through
  | forReturn {note : α} {item : String} {iterable : Expr α} {body otherwise : List (Stmt α)}
      (rounds : Stmt.Rounds body .return) :
      Path (.for note item iterable body otherwise) [] .return

/-- A path through statements in order, up to a jump. -/
inductive Stmt.PathAll : List (Stmt α) → List (List (Stmt α)) → Exit → Prop where
  | nil : PathAll [] [] .through
  | leave {first : Stmt α} {rest : List (Stmt α)} {left : List (List (Stmt α))} {exit : Exit}
      (onFirst : first.Path left exit) (jumps : exit ≠ .through) :
      PathAll (first :: rest) left exit
  | next {first : Stmt α} {rest : List (Stmt α)} {left left' : List (List (Stmt α))} {exit : Exit}
      (onFirst : first.Path left .through) (onRest : Stmt.PathAll rest left' exit) :
      PathAll (first :: rest) (left ++ left') exit

/-- Rounds of a loop: any number, until the loop is over or a round breaks it or returns. -/
inductive Stmt.Rounds : List (Stmt α) → Exit → Prop where
  | finished {body : List (Stmt α)} : Rounds body .through
  | next {body : List (Stmt α)} {left : List (List (Stmt α))} {exit exit' : Exit}
      (onBody : Stmt.PathAll body left exit) (goesOn : exit = .through ∨ exit = .continue)
      (rounds : Stmt.Rounds body exit') : Rounds body exit'
  | leave {body : List (Stmt α)} {left : List (List (Stmt α))} {exit : Exit}
      (onBody : Stmt.PathAll body left exit) (jumps : exit = .break ∨ exit = .return) :
      Rounds body exit

end

/-! ## Paths that there are -/

mutual

/-- Whether a statement may end in some way. -/
def Stmt.mayExit : Stmt α → Exit → Bool
  | .return .., exit => exit = .return
  | .break _, exit => exit = .break
  | .continue _, exit => exit = .continue
  | .cond _ _ body otherwise, exit => Stmt.mayExitAll body exit || Stmt.mayExitAll otherwise exit
  | .while _ _ body, exit =>
    exit = .through || exit = .return && Stmt.mayExitAll body .return
  | .for _ _ _ body otherwise, exit =>
    Stmt.mayExitAll otherwise exit || exit = .return && Stmt.mayExitAll body .return ||
      exit = .through && Stmt.mayExitAll body .break
  | _, exit => exit = .through

/-- Whether a block may end in some way. -/
def Stmt.mayExitAll : List (Stmt α) → Exit → Bool
  | [], exit => exit = .through
  | first :: rest, exit =>
    exit ≠ .through && first.mayExit exit || first.mayExit .through && Stmt.mayExitAll rest exit

end

namespace Stmt

theorem mayExit_of_isStep {s : Stmt α} (h : s.isStep = true) (exit : Exit) :
    s.mayExit exit = decide (exit = .through) := by
  cases s <;> first | rfl | nomatch h

mutual

/-- As a path ends, the statement may end. -/
theorem Path.mayExit {s : Stmt α} {left : List (List (Stmt α))} {exit : Exit}
    (h : s.Path left exit) : s.mayExit exit = true := by
  match h with
  | .step isStep =>
    rw [mayExit_of_isStep isStep]
    rfl
  | .return | .break | .continue => rfl
  | .condBody onBody => simp [Stmt.mayExit, onBody.mayExitAll]
  | .condOtherwise onOtherwise => simp [Stmt.mayExit, onOtherwise.mayExitAll]
  | .while _ _ => rfl
  | .whileReturn rounds =>
    have hbody := rounds.mayExitAll (.inr rfl)
    simp [Stmt.mayExit, hbody]
  | .for _ _ onOtherwise => simp [Stmt.mayExit, onOtherwise.mayExitAll]
  | .forBreak rounds =>
    have hbody := rounds.mayExitAll (.inl rfl)
    simp [Stmt.mayExit, hbody]
  | .forReturn rounds =>
    have hbody := rounds.mayExitAll (.inr rfl)
    simp [Stmt.mayExit, hbody]

theorem PathAll.mayExitAll {block : List (Stmt α)} {left : List (List (Stmt α))} {exit : Exit}
    (h : PathAll block left exit) : mayExitAll block exit = true := by
  match h with
  | .nil => rfl
  | .leave onFirst jumps => simp [Stmt.mayExitAll, jumps, onFirst.mayExit]
  | .next onFirst onRest => simp [Stmt.mayExitAll, onFirst.mayExit, onRest.mayExitAll]

/-- What ends a loop from inside is how its body may end. -/
theorem Rounds.mayExitAll {body : List (Stmt α)} {exit : Exit} (h : Rounds body exit)
    (hjump : exit = .break ∨ exit = .return) : mayExitAll body exit = true := by
  match h with
  | .finished => rcases hjump with hjump | hjump <;> nomatch hjump
  | .next _ _ rounds => exact rounds.mayExitAll hjump
  | .leave onBody _ => exact onBody.mayExitAll

end

mutual

/-- As a statement may end, some path ends. -/
theorem exists_path (s : Stmt α) {exit : Exit} (h : s.mayExit exit = true) :
    ∃ left, s.Path left exit := by
  match s with
  | .assign .. | .fieldAssign .. | .indexAssign .. | .expr .. | .pass _ =>
    obtain rfl := of_decide_eq_true h
    exact ⟨_, .step rfl⟩
  | .return .. =>
    obtain rfl := of_decide_eq_true h
    exact ⟨_, .return⟩
  | .break _ =>
    obtain rfl := of_decide_eq_true h
    exact ⟨_, .break⟩
  | .continue _ =>
    obtain rfl := of_decide_eq_true h
    exact ⟨_, .continue⟩
  | .cond _ _ body otherwise =>
    rcases Bool.or_eq_true_iff.mp h with h | h
    · obtain ⟨left, onBody⟩ := exists_pathAll body h
      exact ⟨left, .condBody onBody⟩
    · obtain ⟨left, onOtherwise⟩ := exists_pathAll otherwise h
      exact ⟨left, .condOtherwise onOtherwise⟩
  | .while _ _ body =>
    simp only [mayExit, Bool.or_eq_true, Bool.and_eq_true, decide_eq_true_eq] at h
    rcases h with rfl | ⟨rfl, h⟩
    · exact ⟨_, .while .finished nofun⟩
    · obtain ⟨_, onBody⟩ := exists_pathAll body h
      exact ⟨_, .whileReturn (.leave onBody (.inr rfl))⟩
  | .for _ _ _ body otherwise =>
    simp only [mayExit, Bool.or_eq_true, Bool.and_eq_true, decide_eq_true_eq] at h
    rcases h with (h | ⟨rfl, h⟩) | ⟨rfl, h⟩
    · obtain ⟨_, onOtherwise⟩ := exists_pathAll otherwise h
      exact ⟨_, .for .finished nofun onOtherwise⟩
    · obtain ⟨_, onBody⟩ := exists_pathAll body h
      exact ⟨_, .forReturn (.leave onBody (.inr rfl))⟩
    · obtain ⟨_, onBody⟩ := exists_pathAll body h
      exact ⟨_, .forBreak (.leave onBody (.inl rfl))⟩

theorem exists_pathAll (block : List (Stmt α)) {exit : Exit} (h : mayExitAll block exit = true) :
    ∃ left, PathAll block left exit := by
  match block with
  | [] =>
    obtain rfl := of_decide_eq_true h
    exact ⟨_, .nil⟩
  | first :: rest =>
    simp only [mayExitAll, Bool.or_eq_true, Bool.and_eq_true, decide_eq_true_eq] at h
    rcases h with ⟨hjumps, h⟩ | ⟨hfirst, h⟩
    · obtain ⟨_, onFirst⟩ := exists_path first h
      exact ⟨_, .leave onFirst hjumps⟩
    · obtain ⟨_, onFirst⟩ := exists_path first hfirst
      obtain ⟨_, onRest⟩ := exists_pathAll rest h
      exact ⟨_, .next onFirst onRest⟩

end

/-- A block may end in some way if and only if some path through it does. -/
theorem exists_pathAll_iff (block : List (Stmt α)) (exit : Exit) :
    (∃ left, PathAll block left exit) ↔ mayExitAll block exit = true :=
  ⟨fun ⟨_, h⟩ => h.mayExitAll, exists_pathAll block⟩

end Stmt

/-! ## Returns -/

/-- A return stands in a block, however deep inside. -/
def HoldsReturn (block : List (Stmt α)) : Prop :=
  ∃ note value inLoop, (Stmt.return note value).Stands inLoop block

/-- A return in a block is one in what the block stands in, in a loop or not. -/
theorem HoldsReturn.within {block around : List (Stmt α)} {place : Bool → Bool}
    (hblock : HoldsReturn block)
    (h : ∀ {s : Stmt α} {inLoop}, s.Stands inLoop block → s.Stands (place inLoop) around) :
    HoldsReturn around := by
  obtain ⟨note, value, inLoop, hstands⟩ := hblock
  exact ⟨note, value, place inLoop, h hstands⟩

end Offside
