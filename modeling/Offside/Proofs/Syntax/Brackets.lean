import Offside.Token

/-!
# Brackets

Which rows of tokens have brackets that are nested and match one another.  A row is read with a
stack of the closing brackets that are still waited for.

Main definitions:

- `readBrackets`: the closing brackets that are waited for behind a row of tokens.
- `Nested`: the brackets of a row are nested and match.
- `Grounded`: a row closes no bracket that was opened before it.

Main results:

- Theorem `nested_append_iff`: two rows are nested together exactly if each is.
- Theorem `nested_wrap_iff`: a row in brackets is nested exactly if it is without them, and they
  match.
-/

namespace Offside

/-! ## Reading brackets -/

/-- The closing bracket that belongs to an opening one. -/
def TokenKind.closing? : TokenKind → Option TokenKind
  | .openParen => some .closeParen
  | .openBracket => some .closeBracket
  | .openCurly => some .closeCurly
  | _ => none

/-- Whether a kind opens or closes a bracket. -/
def TokenKind.isBracket (kind : TokenKind) : Bool := kind.isOpening || kind.isClosing

/-- Reads one token, given the closing brackets that are waited for, the next one first.  A closing
bracket has to be the one that is waited for. -/
def readBracket (waiting : List TokenKind) (token : Token) : Option (List TokenKind) :=
  match token.kind.closing? with
  | some closing => some (closing :: waiting)
  | none =>
    if token.kind.isClosing then
      match waiting with
      | [] => none
      | expected :: more => if token.kind = expected then some more else none
    else some waiting

/-- The closing brackets that are waited for behind a row of tokens. -/
def readBrackets (waiting : List TokenKind) (tokens : List Token) : Option (List TokenKind) :=
  tokens.foldlM readBracket waiting

/-- All brackets of a row of tokens are closed, in the right order and each by its own kind. -/
def Nested (tokens : List Token) : Prop := readBrackets [] tokens = some []

instance (tokens : List Token) : Decidable (Nested tokens) :=
  inferInstanceAs (Decidable (readBrackets [] tokens = some []))

/-- What a row of tokens does to the brackets that are waited for does not depend on what was
waited for before it. -/
def Grounded (tokens : List Token) : Prop :=
  ∀ waiting, readBrackets waiting tokens = (readBrackets [] tokens).map (· ++ waiting)

variable {token opening closing : Token} {tokens first second inside rest : List Token}
  {waiting : List TokenKind}

/-- An opening bracket waits for its closing one. -/
theorem readBracket_opening {kind : TokenKind} (h : token.kind.closing? = some kind) :
    readBracket waiting token = some (kind :: waiting) := by
  unfold readBracket
  rw [h]

/-- No kind both opens and closes a bracket. -/
theorem closing?_of_isClosing {kind : TokenKind} (h : kind.isClosing = true) :
    kind.closing? = none := by
  cases kind <;> first | rfl | cases h

/-- What an opening bracket waits for closes. -/
theorem isClosing_of_closing? {kind ending : TokenKind} (h : kind.closing? = some ending) :
    ending.isClosing = true := by
  cases kind <;> cases h <;> rfl

/-- A closing bracket is the one waited for, or none may stand there. -/
theorem readBracket_closing {expected : TokenKind} (h : token.kind.isClosing = true) :
    readBracket (expected :: waiting) token =
      if token.kind = expected then some waiting else none := by
  rw [readBracket, closing?_of_isClosing h, if_pos h]

/-- Other tokens are no brackets. -/
theorem readBracket_other (h : token.kind.isBracket = false) :
    readBracket waiting token = some waiting := by
  unfold readBracket
  cases hkind : token.kind <;> rw [hkind] at h <;> first | rfl | cases h

/-- Brackets are read one after the other. -/
theorem readBrackets_cons (waiting : List TokenKind) (token : Token) (rest : List Token) :
    readBrackets waiting (token :: rest) =
      (readBracket waiting token).bind fun waiting => readBrackets waiting rest := rfl

/-- A row is read behind the row before it. -/
theorem readBrackets_append (waiting : List TokenKind) (first second : List Token) :
    readBrackets waiting (first ++ second) =
      (readBrackets waiting first).bind fun waiting => readBrackets waiting second :=
  List.foldlM_append

/-! ## Rows one after another -/

/-- No tokens leave all brackets as they are. -/
theorem grounded_nil : Grounded [] := fun _ => rfl

/-- No tokens are nested. -/
theorem nested_nil : Nested [] := rfl

/-- A token that is no bracket changes nothing. -/
theorem grounded_of_other (h : token.kind.isBracket = false) : Grounded [token] := by
  intro waiting
  rw [readBrackets_cons, readBrackets_cons, readBracket_other h, readBracket_other h]
  rfl

/-- A token that is no bracket is nested. -/
theorem nested_of_other (h : token.kind.isBracket = false) : Nested [token] := by
  rw [Nested, readBrackets_cons, readBracket_other h]
  rfl

/-- Two rows that leave the brackets around as they are do so together. -/
theorem Grounded.append (h : Grounded first) (h' : Grounded second) :
    Grounded (first ++ second) := by
  intro waiting
  rw [readBrackets_append, readBrackets_append, h waiting]
  cases readBrackets [] first with
  | none => rfl
  | some open₁ =>
    simp only [Option.map_some, Option.bind_some]
    rw [h' (open₁ ++ waiting), h' open₁]
    cases readBrackets [] second with
    | none => rfl
    | some open₂ => simp

/-- Two rows are nested together exactly if each is. -/
theorem nested_append_iff (h : Grounded second) :
    Nested (first ++ second) ↔ Nested first ∧ Nested second := by
  rw [Nested, readBrackets_append]
  cases hfirst : readBrackets [] first with
  | none => simp [Nested, hfirst]
  | some open₁ =>
    rw [Option.bind_some, h open₁]
    cases hsecond : readBrackets [] second with
    | none => simp [Nested, hsecond]
    | some open₂ => simp [Nested, hfirst, hsecond, and_comm]

/-! ## Rows in brackets -/

/-- What is behind a bracket that is closed by a bracket of its kind. -/
theorem readBrackets_wrap {kind : TokenKind} (hopen : opening.kind.closing? = some kind)
    (hclose : closing.kind.isClosing = true) (h : Grounded inside) :
    readBrackets waiting (opening :: inside ++ [closing]) =
      (readBrackets [] inside).bind fun left =>
        match left ++ [kind] with
        | [] => none
        | expected :: more => if closing.kind = expected then some (more ++ waiting) else none := by
  rw [List.cons_append, readBrackets_cons, readBracket_opening hopen, Option.bind_some,
    readBrackets_append, h]
  cases readBrackets [] inside with
  | none => rfl
  | some left =>
    have hlast (expected : TokenKind) (more : List TokenKind) :
        readBrackets (expected :: more) [closing] =
          if closing.kind = expected then some more else none := by
      rw [readBrackets_cons, readBracket_closing hclose]
      split <;> rfl
    cases left with
    | nil => exact hlast kind waiting
    | cons expected more => simpa using hlast expected (more ++ kind :: waiting)

/-- Brackets around such a row do so, too. -/
theorem grounded_wrap {kind : TokenKind} (hopen : opening.kind.closing? = some kind)
    (hclose : closing.kind.isClosing = true) (h : Grounded inside) :
    Grounded (opening :: inside ++ [closing]) := by
  intro waiting
  rw [readBrackets_wrap hopen hclose h, readBrackets_wrap hopen hclose h]
  cases readBrackets [] inside with
  | none => rfl
  | some left =>
    simp only [Option.bind_some]
    cases left ++ [kind] with
    | nil => rfl
    | cons expected more =>
      dsimp only
      split
      · simp
      · rfl

/-- A row in brackets is nested exactly if it is without them, and they match. -/
theorem nested_wrap_iff {kind : TokenKind} (hopen : opening.kind.closing? = some kind)
    (hclose : closing.kind.isClosing = true) (h : Grounded inside) :
    Nested (opening :: inside ++ [closing]) ↔ Nested inside ∧ closing.kind = kind := by
  rw [Nested, readBrackets_wrap hopen hclose h]
  cases hinside : readBrackets [] inside with
  | none => simp [Nested, hinside]
  | some left =>
    cases left with
    | nil => simp [Nested, hinside]
    | cons expected more => simp [Nested, hinside]

/-- A bracket that is not closed is waited for. -/
theorem grounded_open {kind : TokenKind} (hopen : opening.kind.closing? = some kind)
    (h : Grounded inside) : Grounded (opening :: inside) := by
  intro waiting
  rw [readBrackets_cons, readBrackets_cons, readBracket_opening hopen, readBracket_opening hopen,
    Option.bind_some, Option.bind_some, h, h [kind]]
  cases readBrackets [] inside with
  | none => rfl
  | some left => simp

/-- A bracket that is not closed is not nested. -/
theorem not_nested_open {kind : TokenKind} (hopen : opening.kind.closing? = some kind)
    (h : Grounded inside) : ¬ Nested (opening :: inside) := by
  rw [Nested, readBrackets_cons, readBracket_opening hopen, Option.bind_some, h]
  cases readBrackets [] inside with
  | none => nofun
  | some left => simp

/-- Tokens that are no brackets do not count. -/
theorem readBrackets_filter {keeps : Token → Bool}
    (h : ∀ token ∈ tokens, keeps token = false → token.kind.isBracket = false) :
    readBrackets waiting (tokens.filter keeps) = readBrackets waiting tokens := by
  induction tokens generalizing waiting with
  | nil => rfl
  | cons token rest ih =>
    rw [List.forall_mem_cons] at h
    cases hkeeps : keeps token with
    | true =>
      rw [List.filter_cons_of_pos hkeeps, readBrackets_cons, readBrackets_cons]
      exact congrArg _ (funext fun _ => ih h.2)
    | false =>
      rw [List.filter_cons_of_neg (by simp [hkeeps]), readBrackets_cons,
        readBracket_other (h.1 hkeeps), Option.bind_some, ih h.2]

end Offside
