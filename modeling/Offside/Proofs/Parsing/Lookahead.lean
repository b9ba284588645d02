import Offside.Proofs.Parsing.Recursion

/-!
# One token of lookahead

What a reader makes of a stream is decided by the tokens that it takes and by the one behind them,
whatever comes after it.  There is one lemma for each form of phrase, about the reader of this form
over any reader of smaller phrases that is decided in this way.  So it is with a whole token list: a
refusal names the first token that cannot be read, and the tokens behind it have no say in it.

Main definitions:

- `TokenStream.Takes`: some tokens of a stream are taken, and another stream is left.
- `Decided`: what a reader makes of a stream is decided by what it takes and the next token.

Main results:

- Theorem `read_decided`: the reader of the language is decided in this way on all phrases.
- Theorem `parse_cases`: a token list is parsed, or refused with all others that begin like it.
- Theorem `parse_decided`: what refuses a token list refuses all that begin with the same tokens.
-/

namespace Offside

open Offside.Parser Parse
open TokenStream (ahead)

/-! ## Tokens taken -/

/-- The first tokens of a stream, without the end of the file, are taken, and a stream that ends
with the end of the file is left. -/
structure TokenStream.Takes (s : TokenStream) (taken : List Token) (after : TokenStream) :
    Prop where
  starts : s = ahead taken after
  closed : after.Closed
  noEnd : ∀ token ∈ taken, token.kind ≠ .eof

/-- What a reader makes of a stream is decided by the tokens that it takes and by the token behind
them, whatever comes after these: it gives a value and leaves fewer tokens than `bound`, or refuses
the token behind those taken. -/
inductive Decided {α : Type} (p : Parser) (bound : Nat) (reader : Parse α) (s : TokenStream) :
    Prop where
  | gives {taken : List Token} {after : TokenStream} (value : α) (takes : s.Takes taken after)
    (less : after.rest.length < bound)
    (reads : ∀ u : TokenStream, u.Closed → u.current = after.current →
      Runs reader (ahead taken u) value u)
  | refuses {taken : List Token} {after : TokenStream} (reason : Option String)
    (takes : s.Takes taken after)
    (refused : ∀ u : TokenStream, u.Closed → u.current = after.current →
      reader (ahead taken u) =
        .refuseAt p.source after.current.span.start (.unexpected reason after.current))

variable {p : Parser} {bound more : Nat} {s t : TokenStream} {α β : Type}

namespace TokenStream

variable {taken : List Token} {after u : TokenStream}

/-- Tokens put in front of a stream do not change how it ends. -/
theorem closed_ahead (tokens : List Token) (h : u.Closed) : (ahead tokens u).Closed := by
  have hne : u.toList ≠ [] := List.cons_ne_nil _ _
  rw [Closed, toList_ahead, List.getLast?_append_of_ne_nil _ hne]
  exact h

namespace Takes

/-- Nothing may be taken from a stream that ends as it should. -/
theorem nothing (h : s.Closed) : s.Takes [] s := ⟨rfl, h, nofun⟩

/-- A token that is not the end of the file may be taken. -/
theorem one (h : s.Closed) (hkind : s.current.kind ≠ .eof) : s.Takes [s.current] s.next where
  starts := by
    obtain ⟨htokens, -⟩ := h.toList_eq hkind
    exact congrArg (TokenStream.mk s.current) (List.cons.inj htokens).2
  closed := (h.toList_eq hkind).2
  noEnd token hmem := List.mem_singleton.mp hmem ▸ hkind

/-- What is taken first and what is taken then is taken together. -/
theorem append {middle : TokenStream} {others : List Token} (h : s.Takes taken middle)
    (hothers : middle.Takes others after) : s.Takes (taken ++ others) after where
  starts := by rw [ahead_append, ← hothers.starts, h.starts]
  closed := hothers.closed
  noEnd token hmem := (List.mem_append.mp hmem).elim (h.noEnd token) (hothers.noEnd token)

/-- What is left is shorter by the tokens taken. -/
theorem length_rest (h : s.Takes taken after) :
    s.rest.length = taken.length + after.rest.length := by
  rw [h.starts, length_rest_ahead]

/-- With the same tokens in front of another stream, the first token is the same. -/
theorem current_ahead (h : s.Takes taken after) (hu : u.current = after.current) :
    (ahead taken u).current = s.current := by
  rw [h.starts]
  cases taken with
  | nil => exact hu
  | cons token tokens => rfl

/-- A count of rounds that is above the tokens left stays above them when some are taken: one
round is used up, and the tokens taken beyond the first one add to what is spare. -/
theorem spare (h : s.Takes taken after) (hless : after.rest.length < s.rest.length) (spare : Nat)
    (u : TokenStream) : (ahead taken u).rest.length + spare =
      u.rest.length + (taken.length - 1 + spare) + 1 := by
  have hlength := h.length_rest
  rw [length_rest_ahead]
  omega

end Takes
end TokenStream

/-- A stream below a bound is below a larger one. -/
theorem TokenStream.Below.mono (h : s.Below bound) (hle : bound ≤ more) : s.Below more :=
  ⟨h.closed, Nat.lt_of_lt_of_le h.less hle⟩

/-- A stream is below any bound above its number of tokens. -/
theorem TokenStream.Closed.below (h : s.Closed) : s.Below (s.rest.length + 1) :=
  ⟨h, Nat.lt_succ_self _⟩

/-- A refusal is handed on. -/
theorem Outcome.bind_refuseAt (source : Source) (position : Nat) (cause : Cause)
    (next : α → Outcome β) : (refuseAt source position cause).bind next =
      (refuseAt source position cause : Outcome β) := by
  unfold refuseAt
  cases Source.location? source position <;> rfl

/-! ## Readers in a row -/

namespace Decided

variable {reader reader' : Parse α} {next : α → Parse β}

/-- A value that needs no token is given whatever comes. -/
theorem pure (value : α) (hs : s.Below bound) : Decided p bound (Pure.pure value) s :=
  .gives value (.nothing hs.closed) hs.less fun u _ _ => Runs.pure value u

/-- A reader that leaves few tokens leaves fewer than any larger bound. -/
theorem mono (h : Decided p bound reader s) (hle : bound ≤ more) : Decided p more reader s := by
  cases h with
  | gives value takes less reads => exact .gives value takes (Nat.lt_of_lt_of_le less hle) reads
  | refuses reason takes refused => exact .refuses reason takes refused

/-- A reader that takes a token leaves fewer of them than any bound above the tokens there are. -/
theorem within (h : Decided p s.rest.length reader s) (hs : s.Below bound) :
    Decided p bound reader s :=
  h.mono (Nat.le_of_lt hs.less)

/-- What a reader makes of a stream is known if it is known behind the first tokens. -/
theorem behind {taken : List Token} (htakes : s.Takes taken t)
    (hsame : ∀ u : TokenStream, u.Closed → u.current = t.current →
      reader (ahead taken u) = reader' u)
    (h : Decided p bound reader' t) : Decided p bound reader s := by
  cases h with
  | @gives others last value takes less reads =>
    refine .gives value (htakes.append takes) less fun u hu hcurrent => ?_
    rw [TokenStream.ahead_append]
    refine Eq.trans (hsame _ (TokenStream.closed_ahead _ hu) (takes.current_ahead hcurrent)) ?_
    exact reads u hu hcurrent
  | @refuses others last reason takes refused =>
    refine .refuses reason (htakes.append takes) fun u hu hcurrent => ?_
    rw [TokenStream.ahead_append,
      hsame _ (TokenStream.closed_ahead _ hu) (takes.current_ahead hcurrent)]
    exact refused u hu hcurrent

/-- A reader may be put in another way that comes to the same wherever this token is next. -/
theorem congr (hs : s.Closed) (hsame : ∀ u : TokenStream, u.Closed → u.current = s.current →
    reader u = reader' u) (h : Decided p bound reader' s) : Decided p bound reader s :=
  h.behind (.nothing hs) hsame

/-- A refusal of one reader is a refusal of a row of readers. -/
theorem refuseAt_bind {source : Source} {position : Nat} {cause : Cause}
    (h : reader s = .refuseAt source position cause) :
    (reader >>= next) s = .refuseAt source position cause := by
  have hbind : (reader >>= next) s = (reader s).bind fun entry => next entry.1 entry.2 := rfl
  rw [hbind, h, Outcome.bind_refuseAt]

/-- Of two readers in a row, the second goes on from where the first has ended. -/
theorem bind_of_runs (h : Decided p bound reader s)
    (hnext : ∀ value t, t.Below bound → Runs reader s value t → Decided p more (next value) t) :
    Decided p more (reader >>= next) s := by
  cases h with
  | refuses reason takes refused =>
    exact .refuses reason takes fun u hu hcurrent => refuseAt_bind (refused u hu hcurrent)
  | gives value takes less reads =>
    refine .behind takes (fun u hu hcurrent => Runs.bind_eq (reads u hu hcurrent)) ?_
    refine hnext value _ ⟨takes.closed, less⟩ ?_
    rw [takes.starts]
    exact reads _ takes.closed rfl

/-- Readers in a row are decided by the tokens that both take and the one behind them. -/
theorem bind (h : Decided p bound reader s)
    (hnext : ∀ value t, t.Below bound → Decided p more (next value) t) :
    Decided p more (reader >>= next) s :=
  h.bind_of_runs fun value t ht _ => hnext value t ht

/-- The node of one reader, as a row. -/
theorem single {reader : Parse SyntaxNode} (h : Decided p bound reader s) :
    Decided p bound (do return [← reader]) s :=
  h.bind fun _ _ ht => .pure _ ht

/-- What is taken is gone. -/
theorem onSuccess (h : Decided p bound reader s) :
    OnSuccess reader s fun _ after => after.Below bound := by
  cases h with
  | @gives taken after value takes less reads =>
    have hreads : Runs reader s value after := by
      rw [takes.starts]
      exact reads after takes.closed rfl
    exact .runs hreads ⟨takes.closed, less⟩
  | @refuses taken after reason takes refused =>
    have hrefused := refused after takes.closed rfl
    rw [← takes.starts] at hrefused
    unfold OnSuccess Meets
    rw [hrefused, Outcome.refuseAt]
    cases Source.location? p.source after.current.span.start <;> trivial

end Decided

/-! ## Single tokens -/

section Tokens

variable {kind : TokenKind} {leafKind : SyntaxKind}

/-- A look at the current kind takes nothing. -/
theorem currentKind_decided {next : TokenKind → Parse α} (hs : s.Closed)
    (h : Decided p bound (next s.current.kind) s) :
    Decided p bound (currentKind >>= next) s := by
  refine h.congr hs fun u _ hcurrent => ?_
  rw [← hcurrent]
  exact Runs.bind_eq .currentKind

/-- A refusal of the current token is decided by this token. -/
theorem unexpected_decided (hs : s.Closed) : Decided p bound (p.unexpected : Parse α) s := by
  refine .refuses none (.nothing hs) fun u _ hcurrent => ?_
  rw [← hcurrent]
  rfl

/-- So is a refusal with a reason. -/
theorem unexpectedBecause_decided (hs : s.Closed) (reason : String) :
    Decided p bound (p.unexpectedBecause reason : Parse α) s := by
  refine .refuses (some reason) (.nothing hs) fun u _ hcurrent => ?_
  rw [← hcurrent]
  rfl

/-- One token is taken, if it is not the end of the file. -/
theorem advance_decided (hs : s.Closed) (hkind : s.current.kind ≠ .eof) :
    Decided p s.rest.length advance s := by
  have htakes := TokenStream.Takes.one hs hkind
  have hlength := htakes.length_rest
  rw [List.length_singleton] at hlength
  exact .gives s.current htakes (by omega) fun _ _ _ => .advance

/-- Before the end of the file, one token is read as a leaf. -/
theorem leaf_decided (hs : s.Closed) (hkind : s.current.kind ≠ .eof) :
    Decided p s.rest.length (leaf leafKind) s :=
  (advance_decided hs hkind).bind fun _ _ ht => .pure _ ht

/-- A token of a known kind is read as a leaf. -/
theorem leafOf_takes (hs : s.Closed) (hkind : s.current.kind = kind)
    (hvisible : kind.isVisible = true) : Decided p s.rest.length (leaf leafKind) s :=
  leaf_decided hs (hkind ▸ ne_eof_of_isVisible hvisible)

/-- A visible token is taken as a leaf. -/
theorem leafOf_decided (hs : s.Below bound) (hkind : s.current.kind = kind)
    (hvisible : kind.isVisible = true) : Decided p bound (leaf leafKind) s :=
  (leafOf_takes hs.closed hkind hvisible).within hs

/-- The expected token is taken, or what stands in its place is refused. -/
theorem expect_decided (hs : s.Closed) (hkind : kind ≠ .eof) :
    Decided p s.rest.length (p.expect kind) s := by
  refine currentKind_decided hs ?_
  split
  · next hcurrent => exact advance_decided hs (hcurrent ▸ hkind)
  · exact unexpected_decided hs

/-- So it is when the token becomes a leaf; fewer tokens are left then. -/
theorem expectLeaf_takesOne (hs : s.Closed) (hvisible : kind.isVisible = true) :
    Decided p s.rest.length (p.expectLeaf kind leafKind) s :=
  (expect_decided hs (ne_eof_of_isVisible hvisible)).bind fun _ _ ht => .pure _ ht

/-- So it is below any bound. -/
theorem expectLeaf_decided (hs : s.Below bound) (hvisible : kind.isVisible = true) :
    Decided p bound (p.expectLeaf kind leafKind) s :=
  (expectLeaf_takesOne hs.closed hvisible).within hs

/-- A token of layout is read without a trace. -/
theorem expectLayout_decided (hs : s.Below bound) (hlayout : kind.isLayout = true) :
    Decided p bound (p.expect kind) s := by
  have heof : kind ≠ .eof := by
    rintro rfl
    nomatch hlayout
  exact (expect_decided hs.closed heof).within hs

end Tokens

/-! ## Parts -/

section Parts

variable {passes : TokenKind → Bool} {item : Parse (List SyntaxNode)} {kind : TokenKind}

/-- Whether a part is there is told by the current token. -/
theorem optionally_decided (hs : s.Below bound)
    (hitem : passes s.current.kind = true → Decided p bound item s) :
    Decided p bound (optionally passes item) s := by
  refine currentKind_decided hs.closed ?_
  split
  · next hpasses => exact hitem hpasses
  · exact .pure [] hs

/-- A mark that may be missing. -/
theorem optionalMark_decided (hs : s.Below bound) (hvisible : kind.isVisible = true) :
    Decided p bound (optionally (· = kind) do return [← leaf .punctuation]) s :=
  optionally_decided hs fun hkind => (leafOf_decided hs (of_decide_eq_true hkind) hvisible).single

/-- Rounds that each take a token are decided one by one.  How many more of them than tokens there
may be depends on the tokens taken before. -/
theorem rounds_decided (spare : Nat) (hs : s.Below bound)
    (hitem : ∀ t : TokenStream, t.Below bound → passes t.current.kind = true →
      Decided p t.rest.length item t) :
    Decided p bound (fun stream => rounds passes item (stream.rest.length + spare + 1) stream)
      s := by
  induction hlength : s.rest.length using Nat.strongRecOn generalizing s spare with
  | ind length ih =>
    subst hlength
    have hround (limit : Nat) (u : TokenStream) (hcurrent : u.current = s.current) :
        rounds passes item (limit + 1) u =
          (if passes s.current.kind then do
            let first ← item
            let more ← rounds passes item limit
            return first ++ more
          else return []) u := by
      rw [rounds, Runs.bind_eq .currentKind, hcurrent]
    by_cases hpasses : passes s.current.kind = true
    · simp only [if_pos hpasses] at hround
      cases hitem s hs hpasses with
      | refuses reason takes refused =>
        refine .refuses reason takes fun u hu hcurrent => ?_
        rw [hround _ _ (takes.current_ahead hcurrent)]
        exact Decided.refuseAt_bind (refused u hu hcurrent)
      | @gives taken t first takes less reads =>
        have ht : t.Below bound := ⟨takes.closed, Nat.lt_trans less hs.less⟩
        have hmore : Decided p bound (_ >>= fun more => pure (first ++ more)) t :=
          (ih _ less (taken.length - 1 + spare) ht rfl).bind fun _ _ hv => .pure _ hv
        refine .behind takes (fun u hu hcurrent => ?_) hmore
        rw [hround _ _ (takes.current_ahead hcurrent), takes.spare less,
          Runs.bind_eq (reads u hu hcurrent)]
        rfl
    · refine .congr hs.closed (fun u _ hcurrent => ?_) (.pure [] hs)
      rw [hround _ _ hcurrent, if_neg hpasses]

/-- So is whether there is one more round. -/
theorem repeatWhile_decided (hs : s.Below bound)
    (hitem : ∀ t : TokenStream, t.Below bound → passes t.current.kind = true →
      Decided p t.rest.length item t) : Decided p bound (repeatWhile passes item) s :=
  rounds_decided 0 hs hitem

end Parts

/-! ## Readers of smaller phrases -/

/-- A reader of phrases is decided on all streams with fewer tokens than a bound. -/
structure DecidedBelow (p : Parser) (bound : Nat) (read : Goal → Parse SyntaxNode) : Prop where
  expression : ∀ (above : Power) {s : TokenStream}, s.Below bound →
    Decided p s.rest.length (read (.expression above)) s
  form : ∀ (form : Form) {s : TokenStream}, s.Below bound →
    form.startsAt s.current.kind = true → Decided p s.rest.length (read (.form form)) s
  suffix : ∀ {suffix : Suffix} (left : SyntaxNode) {power : Power} {s : TokenStream},
    s.Below bound → Grammar.standard.suffix s.current.kind = some (power, suffix) →
      Decided p s.rest.length (read (.suffix suffix left power)) s

namespace DecidedBelow

variable {read : Goal → Parse SyntaxNode}

/-- A reader of phrases that is decided below a bound is decided below a smaller one. -/
theorem mono (h : DecidedBelow p more read) (hle : bound ≤ more) : DecidedBelow p bound read where
  expression above _ hs := h.expression above (hs.mono hle)
  form form _ hs hstarts := h.form form (hs.mono hle) hstarts
  suffix left _ _ hs hstarts := h.suffix left (hs.mono hle) hstarts

/-- What reads phrases on all streams below a bound does so behind any token of one of them. -/
theorem behind (h : DecidedBelow p bound read) (hs : s.Below bound) :
    DecidedBelow p s.rest.length read :=
  h.mono (Nat.le_of_lt hs.less)

/-- Expressions inside of a phrase are read as they are decided. -/
theorem operand (h : DecidedBelow p bound read) (above : Power) (hs : s.Below bound) :
    Decided p bound (read (.expression above)) s :=
  (h.expression above hs).within hs

/-- So are blocks. -/
theorem block (h : DecidedBelow p bound read) (hs : s.Below bound) :
    Decided p bound (read (.form .block)) s :=
  (h.form .block hs rfl).within hs

end DecidedBelow

section Readers

variable {read : Goal → Parse SyntaxNode} {left : SyntaxNode} {power : Power}

/-! ## Loops -/

/-- A type behind its marker takes tokens of its own. -/
theorem typeDef_takes (hs : s.Closed) (hread : DecidedBelow p s.rest.length read)
    {marker : TokenKind} (hvisible : marker.isVisible = true) :
    Decided p s.rest.length (typeDef p read marker) s := by
  refine (expectLeaf_takesOne hs hvisible).bind fun _ _ h₁ => ?_
  exact (hread.operand .lowest h₁).bind fun _ _ h₂ => .pure _ h₂

/-- A type behind its marker is decided below any bound. -/
theorem typeDef_decided (hs : s.Below bound) (hread : DecidedBelow p bound read)
    {marker : TokenKind} (hvisible : marker.isVisible = true) :
    Decided p bound (typeDef p read marker) s :=
  (typeDef_takes hs.closed (hread.behind hs) hvisible).within hs

/-- A type that may be missing. -/
theorem optionalType_decided (hs : s.Below bound) (hread : DecidedBelow p bound read)
    {marker : TokenKind} (hvisible : marker.isVisible = true) :
    Decided p bound (optionally (· = marker) do return [← typeDef p read marker]) s :=
  optionally_decided hs fun _ => (typeDef_decided hs hread hvisible).single

/-- Every round of a loop takes a token. -/
theorem round_decided (loop : Loop) (hs : s.Below bound) (hread : DecidedBelow p bound read)
    (hpasses : loop.passes s.current.kind = true) :
    Decided p s.rest.length (loop.round p read) s := by
  have hless := hread.behind hs
  cases loop with
  | script | block => exact (hread.form .statement hs rfl).single
  | branches =>
    refine (leafOf_takes hs.closed (of_decide_eq_true hpasses) rfl).bind fun _ _ h₁ => ?_
    refine (hless.operand .lowest h₁).bind fun _ _ h₂ => ?_
    exact (hless.block h₂).bind fun _ _ h₃ => .pure _ h₃
  | arguments =>
    refine currentKind_decided hs.closed ?_
    split
    · next hcomma => exact (leafOf_takes hs.closed hcomma rfl).single
    · exact (hread.expression .lowest hs).single
  | parts =>
    refine currentKind_decided hs.closed ?_
    split
    · next hmark =>
      have hkind : s.current.kind ≠ .eof := by
        rcases hmark with hkind | hkind <;> rw [hkind] <;> nofun
      exact (leaf_decided hs.closed hkind).single
    · exact (hread.expression .lowest hs).single
  | elements =>
    refine (leafOf_takes hs.closed (of_decide_eq_true hpasses) rfl).bind fun _ _ h₁ => ?_
    refine (optionally_decided h₁ fun _ => (hless.operand .lowest h₁).single).bind
      fun _ _ h₂ => ?_
    exact .pure _ h₂
  | parameters =>
    refine (expectLeaf_takesOne hs.closed rfl).bind fun _ _ h₁ => ?_
    refine (optionalType_decided h₁ hless rfl).bind fun _ _ h₂ => ?_
    refine currentKind_decided h₂.closed ?_
    split
    · next hcomma => exact (leafOf_decided h₂ hcomma rfl).bind fun _ _ h₃ => .pure _ h₃
    · exact .pure _ h₂
    · exact unexpectedBecause_decided h₂.closed _

/-- A loop is decided below the bound of its rounds. -/
theorem run_decided (loop : Loop) (hs : s.Below bound) (hread : DecidedBelow p bound read) :
    Decided p bound (loop.run p read) s :=
  repeatWhile_decided hs fun _ ht hpasses => round_decided loop ht hread hpasses

/-! ## Expressions -/

/-- The end of the file starts no suffix. -/
theorem ne_eof_of_suffix {kind : TokenKind} {suffix : Suffix}
    (h : Grammar.standard.suffix kind = some (power, suffix)) : kind ≠ .eof :=
  ne_eof_of_isVisible (isVisible_of_suffix h)

/-- The next token alone says which suffix is to be taken, if any. -/
theorem suffixAbove_runs (hp : p.grammar = .standard) (above : Power) (s : TokenStream) :
    ∃ found, GoesOn above s.current.kind found ∧
      ∀ u : TokenStream, u.current = s.current → Runs (p.suffixAbove above) u found u := by
  by_cases hstops : (Grammar.standard.power s.current.kind).rank ≤ above.rank
  · refine ⟨none, hstops, fun u hcurrent => ReadsTo.suffixAbove_none ?_⟩
    rw [hp, hcurrent]
    exact hstops
  · rcases hsuffix : Grammar.standard.suffix s.current.kind with _ | ⟨power, suffix⟩
    · exact absurd (by simp [Grammar.power, hsuffix, Power.rank]) hstops
    · have habove : above.rank < power.rank := by
        simpa [Grammar.power, hsuffix] using hstops
      refine ⟨some (power, suffix), ⟨hsuffix, habove⟩, fun u hcurrent => ?_⟩
      refine ReadsTo.suffixAbove_some ?_ habove
      rw [hp, hcurrent]
      exact hsuffix

/-- Suffixes are decided one by one, as rounds are. -/
theorem extend_decided (hp : p.grammar = .standard) (above : Power) (left : SyntaxNode)
    (spare : Nat) (hs : s.Below bound) (hread : DecidedBelow p bound read) :
    Decided p bound
      (fun stream => p.extend read above (stream.rest.length + spare + 1) left stream) s := by
  induction hlength : s.rest.length using Nat.strongRecOn generalizing s left spare with
  | ind length ih =>
    subst hlength
    obtain ⟨found, hgoes, hfound⟩ := suffixAbove_runs hp above s
    cases found with
    | none =>
      refine .congr hs.closed (fun u _ hcurrent => ?_) (.pure left hs)
      rw [extend, Runs.bind_eq (hfound u hcurrent)]
    | some entry =>
      have hsuffix (limit : Nat) (u : TokenStream) (hcurrent : u.current = s.current) :
          p.extend read above (limit + 1) left u =
            (read (.suffix entry.2 left entry.1) >>= p.extend read above limit) u := by
        rw [extend, Runs.bind_eq (hfound u hcurrent)]
      cases hread.suffix left hs hgoes.1 with
      | refuses reason takes refused =>
        refine .refuses reason takes fun u hu hcurrent => ?_
        rw [hsuffix _ _ (takes.current_ahead hcurrent)]
        exact Decided.refuseAt_bind (refused u hu hcurrent)
      | @gives taken t node takes less reads =>
        have ht : t.Below bound := ⟨takes.closed, Nat.lt_trans less hs.less⟩
        refine .behind takes (fun u hu hcurrent => ?_)
          (ih _ less node (taken.length - 1 + spare) ht rfl)
        rw [hsuffix _ _ (takes.current_ahead hcurrent), takes.spare less,
          Runs.bind_eq (reads u hu hcurrent)]

/-- An expression, over readers of the phrases that it may start with. -/
theorem expression_decided (hp : p.grammar = .standard) (above : Power) (hs : s.Closed)
    (hread : DecidedBelow p s.rest.length read)
    (hform : ∀ form : Form, Grammar.standard.expression s.current.kind = some form →
      Decided p s.rest.length (read (.form form)) s) :
    Decided p s.rest.length (p.expression read above) s := by
  refine currentKind_decided hs ?_
  rw [hp]
  cases hstarts : Grammar.standard.expression s.current.kind with
  | none => exact unexpected_decided hs
  | some form =>
    exact (hform form hstarts).bind fun left t ht => extend_decided hp above left 0 ht hread

/-- A word or number is one token. -/
theorem primary_decided (hs : s.Closed) : Decided p s.rest.length p.primary s := by
  refine currentKind_decided hs ?_
  split
  case h_7 => exact unexpected_decided hs
  all_goals
    next hkind => exact leafOf_takes hs hkind rfl

/-- An operator in front is taken, and then its operand. -/
theorem unary_decided (hs : s.Closed) (hread : DecidedBelow p s.rest.length read)
    (hstarts : Form.unary.startsAt s.current.kind = true) :
    Decided p s.rest.length (unary read) s := by
  have hkind : s.current.kind ≠ .eof := by
    intro heof
    rw [heof] at hstarts
    nomatch hstarts
  refine currentKind_decided hs ?_
  refine (leaf_decided hs hkind).bind fun _ _ h₁ => ?_
  exact (hread.operand _ h₁).bind fun _ _ h₂ => .pure _ h₂

/-- A comprehension of which the opening bracket and the result are read. -/
theorem comprehensionTail_takes {kind : SyntaxKind} {opening result : SyntaxNode} (hs : s.Closed)
    (hread : DecidedBelow p s.rest.length read) :
    Decided p s.rest.length (comprehensionTail p read kind opening result) s := by
  refine (expectLeaf_takesOne hs rfl).bind fun _ _ h₁ => ?_
  refine (expectLeaf_decided h₁ rfl).bind fun _ _ h₂ => ?_
  refine (expectLeaf_decided h₂ rfl).bind fun _ _ h₃ => ?_
  refine (hread.operand .ternary h₃).bind fun _ _ h₄ => ?_
  refine (optionally_decided h₄ fun hif => ?_).bind fun _ t h₅ => ?_
  · refine (leafOf_decided h₄ (of_decide_eq_true hif) rfl).bind fun _ _ h₅ => ?_
    exact (hread.operand .ternary h₅).bind fun _ _ h₆ => .pure _ h₆
  · refine currentKind_decided h₅.closed ?_
    split
    · next hclosing =>
      have hkind : t.current.kind ≠ .eof := by
        intro heof
        rw [heof] at hclosing
        nomatch hclosing
      exact ((leaf_decided h₅.closed hkind).within h₅).bind fun _ _ h₆ => .pure _ h₆
    · exact unexpectedBecause_decided h₅.closed _

/-- The rest of a comprehension is decided behind its result. -/
theorem comprehensionTail_decided {kind : SyntaxKind} {opening result : SyntaxNode}
    (hs : s.Below bound) (hread : DecidedBelow p bound read) :
    Decided p bound (comprehensionTail p read kind opening result) s :=
  (comprehensionTail_takes hs.closed (hread.behind hs)).within hs

/-- What is in parentheses is decided behind the opening one. -/
theorem grouping_decided (hs : s.Closed) (hread : DecidedBelow p s.rest.length read)
    (hkind : s.current.kind = .openParen) : Decided p s.rest.length (grouping p read) s := by
  refine (leafOf_takes hs hkind rfl).bind fun _ _ h₁ => ?_
  refine (hread.operand .lowest h₁).bind fun _ _ h₂ => ?_
  refine currentKind_decided h₂.closed ?_
  split
  · exact comprehensionTail_decided h₂ hread
  · exact (optionalMark_decided h₂ rfl).bind fun _ _ h₃ => .pure _ h₃

/-- What is in brackets is decided behind the opening one. -/
theorem array_decided (hs : s.Closed) (hread : DecidedBelow p s.rest.length read)
    (hkind : s.current.kind = .openBracket) : Decided p s.rest.length (array p read) s := by
  refine (leafOf_takes hs hkind rfl).bind fun _ _ h₁ => ?_
  refine currentKind_decided h₁.closed ?_
  split
  · next hclose => exact (leafOf_decided h₁ hclose rfl).bind fun _ _ h₂ => .pure _ h₂
  · refine (hread.operand .lowest h₁).bind fun _ _ h₂ => ?_
    refine currentKind_decided h₂.closed ?_
    split
    · exact comprehensionTail_decided h₂ hread
    · refine (run_decided .elements h₂ hread).bind fun _ _ h₃ => ?_
      exact (optionalMark_decided h₃ rfl).bind fun _ _ h₄ => .pure _ h₄

/-- What is in curly brackets is decided behind the opening one. -/
theorem set_decided (hs : s.Closed) (hread : DecidedBelow p s.rest.length read)
    (hkind : s.current.kind = .openCurly) : Decided p s.rest.length (set p read) s := by
  refine (leafOf_takes hs hkind rfl).bind fun _ _ h₁ => ?_
  refine (hread.operand .lowest h₁).bind fun _ _ h₂ => ?_
  refine currentKind_decided h₂.closed ?_
  split
  · exact comprehensionTail_decided h₂ hread
  · exact unexpectedBecause_decided h₂.closed _

/-- Arguments are decided behind the opening parenthesis. -/
theorem argList_decided (hs : s.Closed) (hread : DecidedBelow p s.rest.length read) :
    Decided p s.rest.length (argList p read) s := by
  refine (expectLeaf_takesOne hs rfl).bind fun _ _ h₁ => ?_
  refine (run_decided .arguments h₁ hread).bind fun _ _ h₂ => ?_
  exact (expectLeaf_decided h₂ rfl).bind fun _ _ h₃ => .pure _ h₃

/-! ## Suffixes -/

/-- A binary operator is taken, and then its right operand. -/
theorem binary_decided (hs : s.Closed) (hread : DecidedBelow p s.rest.length read)
    (hkind : s.current.kind ≠ .eof) : Decided p s.rest.length (binary read left power) s := by
  refine (leaf_decided hs hkind).bind fun _ _ h₁ => ?_
  exact (hread.operand power h₁).bind fun _ _ h₂ => .pure _ h₂

/-- The word `if` is taken, and then the condition and the alternative. -/
theorem conditional_decided (hs : s.Closed) (hread : DecidedBelow p s.rest.length read)
    (hkind : s.current.kind ≠ .eof) : Decided p s.rest.length (conditional p read left) s := by
  refine (leaf_decided hs hkind).bind fun _ _ h₁ => ?_
  refine (hread.operand .ternary h₁).bind fun _ _ h₂ => ?_
  refine (expectLeaf_decided h₂ rfl).bind fun _ _ h₃ => ?_
  exact (hread.operand .lowest h₃).bind fun _ _ h₄ => .pure _ h₄

/-- A call is decided as its arguments are. -/
theorem call_decided (hs : s.Closed) (hread : DecidedBelow p s.rest.length read) :
    Decided p s.rest.length (call p read left) s :=
  (argList_decided hs hread).bind fun _ _ h₁ => .pure _ h₁

/-- A dot is taken, and then a name. -/
theorem member_decided (hs : s.Closed) (hkind : s.current.kind ≠ .eof) :
    Decided p s.rest.length (member p left) s := by
  refine (leaf_decided hs hkind).bind fun _ _ h₁ => ?_
  exact (expectLeaf_decided h₁ rfl).bind fun _ _ h₂ => .pure _ h₂

/-- A bracket is taken, and then what is inside. -/
theorem index_decided (hs : s.Closed) (hread : DecidedBelow p s.rest.length read)
    (hkind : s.current.kind ≠ .eof) : Decided p s.rest.length (index read left) s := by
  refine (leaf_decided hs hkind).bind fun _ _ h₁ => ?_
  refine (run_decided .parts h₁ hread).bind_of_runs fun _ t h₂ hparts => ?_
  have hclose := of_decide_eq_false (repeatWhile_stops.of_runs hparts)
  exact (leafOf_decided h₂ (not_not.mp hclose) rfl).bind fun _ _ h₃ => .pure _ h₃

/-! ## Statements -/

/-- A simple statement, over readers of its first expression. -/
theorem simpleStatement_decided (hread : DecidedBelow p s.rest.length read)
    (htarget : Decided p s.rest.length (read (.expression .lowest)) s) :
    Decided p s.rest.length (simpleStatement p read) s := by
  have hend {node : SyntaxNode} {t : TokenStream} (ht : t.Below s.rest.length) :
      Decided p s.rest.length (do let _ ← p.expect .newline; return node) t :=
    (expectLayout_decided ht rfl).bind fun _ _ h => .pure node h
  refine htarget.bind fun _ _ h₁ => ?_
  refine currentKind_decided h₁.closed ?_
  split
  · refine (typeDef_decided h₁ hread rfl).bind fun _ _ h₂ => ?_
    refine (optionally_decided h₂ fun hassign => ?_).bind fun _ _ h₃ => hend h₃
    refine (leafOf_decided h₂ (of_decide_eq_true hassign) rfl).bind fun _ _ h₃ => ?_
    exact (hread.operand .lowest h₃).bind fun _ _ h₄ => .pure _ h₄
  · next hassign =>
    refine (leafOf_decided h₁ hassign rfl).bind fun _ _ h₂ => ?_
    exact (hread.operand .lowest h₂).bind fun _ _ h₃ => hend h₃
  · exact hend h₁

/-- A statement, over readers of the phrases that it may start with. -/
theorem statement_decided (hp : p.grammar = .standard) (hs : s.Closed)
    (hread : DecidedBelow p s.rest.length read)
    (hform : ∀ form : Form, Grammar.standard.statement s.current.kind = some form →
      Decided p s.rest.length (read (.form form)) s)
    (htarget : Decided p s.rest.length (read (.expression .lowest)) s) :
    Decided p s.rest.length (statement p read) s := by
  refine currentKind_decided hs ?_
  rw [hp]
  cases hstarts : Grammar.standard.statement s.current.kind with
  | none => exact simpleStatement_decided hread htarget
  | some form => exact hform form hstarts

/-- A block, over readers of the statement that it may start with. -/
theorem block_decided (hs : s.Closed) (hread : DecidedBelow p s.rest.length read)
    (hstatement : ∀ t : TokenStream, t.Below (s.rest.length + 1) →
      Decided p t.rest.length (read (.form .statement)) t) :
    Decided p s.rest.length (block p read) s := by
  refine (optionalMark_decided hs.below rfl).bind fun _ t h₁ => ?_
  have hless := Nat.lt_succ_iff.mp h₁.less
  refine currentKind_decided h₁.closed ?_
  split
  · next hline =>
    have heof : t.current.kind ≠ .eof := fun heof => nomatch hline.symm.trans heof
    refine ((advance_decided h₁.closed heof).mono hless).bind fun _ _ h₂ => ?_
    refine (expectLayout_decided h₂ rfl).bind fun _ _ h₃ => ?_
    refine (run_decided .block h₃ hread).bind fun _ _ h₄ => ?_
    exact (expectLayout_decided h₄ rfl).bind fun _ _ h₅ => .pure _ h₅
  · exact ((hstatement t h₁).mono hless).bind fun _ _ h₂ => .pure _ h₂

/-- Whether there is a last branch is told by one token. -/
theorem elsePart_decided (hs : s.Below bound) (hread : DecidedBelow p bound read) :
    Decided p bound (elsePart read) s := by
  refine optionally_decided hs fun helse => ?_
  refine (leafOf_decided hs (of_decide_eq_true helse) rfl).bind fun _ _ h₁ => ?_
  exact (hread.block h₁).bind fun _ _ h₂ => .pure _ h₂

/-- A conditional is decided branch by branch. -/
theorem ifStatement_decided (hs : s.Closed) (hread : DecidedBelow p s.rest.length read)
    (hkind : s.current.kind = .ifWord) : Decided p s.rest.length (ifStatement read) s := by
  refine (leafOf_takes hs hkind rfl).bind fun _ _ h₁ => ?_
  refine (hread.operand .lowest h₁).bind fun _ _ h₂ => ?_
  refine (hread.block h₂).bind fun _ _ h₃ => ?_
  have hbranches : Decided p s.rest.length (Loop.branches.run p read) _ :=
    run_decided .branches h₃ hread
  refine hbranches.bind fun _ _ h₄ => ?_
  exact (elsePart_decided h₄ hread).bind fun _ _ h₅ => .pure _ h₅

/-- A loop under a condition is decided by its parts. -/
theorem whileStatement_decided (hs : s.Closed) (hread : DecidedBelow p s.rest.length read)
    (hkind : s.current.kind = .whileWord) : Decided p s.rest.length (whileStatement read) s := by
  refine (leafOf_takes hs hkind rfl).bind fun _ _ h₁ => ?_
  refine (hread.operand .lowest h₁).bind fun _ _ h₂ => ?_
  exact (hread.block h₂).bind fun _ _ h₃ => .pure _ h₃

/-- A loop over elements is decided by its parts. -/
theorem forStatement_decided (hs : s.Closed) (hread : DecidedBelow p s.rest.length read)
    (hkind : s.current.kind = .forWord) : Decided p s.rest.length (forStatement p read) s := by
  refine (leafOf_takes hs hkind rfl).bind fun _ _ h₁ => ?_
  refine (expectLeaf_decided h₁ rfl).bind fun _ _ h₂ => ?_
  refine (expectLeaf_decided h₂ rfl).bind fun _ _ h₃ => ?_
  refine (hread.operand .lowest h₃).bind fun _ _ h₄ => ?_
  refine (hread.block h₄).bind fun _ _ h₅ => ?_
  exact (elsePart_decided h₅ hread).bind fun _ _ h₆ => .pure _ h₆

/-- Whether something is returned is told by the token behind the word. -/
theorem returnStatement_decided (hs : s.Closed) (hread : DecidedBelow p s.rest.length read)
    (hkind : s.current.kind = .returnWord) :
    Decided p s.rest.length (returnStatement p read) s := by
  refine (leafOf_takes hs hkind rfl).bind fun _ _ h₁ => ?_
  refine (optionally_decided h₁ fun _ => (hread.operand .lowest h₁).single).bind fun _ _ h₂ => ?_
  exact (expectLayout_decided h₂ rfl).bind fun _ _ h₃ => .pure _ h₃

/-- A statement of one word is this word. -/
theorem keywordStatement_decided (hs : s.Closed) :
    Decided p s.rest.length p.keywordStatement s := by
  have hword {kind : SyntaxKind} (hkind : s.current.kind ≠ .eof) :
      Decided p s.rest.length (do
        let word ← leaf .keyword
        let _ ← p.expect .newline
        return .branch kind [word] : Parse SyntaxNode) s :=
    (leaf_decided hs hkind).bind fun _ _ h₁ =>
      (expectLayout_decided h₁ rfl).bind fun _ _ h₂ => .pure _ h₂
  refine currentKind_decided hs ?_
  split
  · next hkind => exact hword (hkind ▸ nofun)
  · next hkind => exact hword (hkind ▸ nofun)
  · next hkind => exact hword (hkind ▸ nofun)
  · exact unexpected_decided hs

/-- Parameters take tokens of their own, the parentheses at least. -/
theorem paramList_takes (hs : s.Closed) (hread : DecidedBelow p s.rest.length read) :
    Decided p s.rest.length (paramList p read) s := by
  refine (expectLeaf_takesOne hs rfl).bind fun _ _ h₁ => ?_
  refine (run_decided .parameters h₁ hread).bind_of_runs fun _ t h₂ hparameters => ?_
  have hclose := of_decide_eq_false (repeatWhile_stops.of_runs hparameters)
  exact (leafOf_decided h₂ (not_not.mp hclose) rfl).bind fun _ _ h₃ => .pure _ h₃

/-- Parameters are decided below any bound. -/
theorem paramList_decided (hs : s.Below bound) (hread : DecidedBelow p bound read) :
    Decided p bound (paramList p read) s :=
  (paramList_takes hs.closed (hread.behind hs)).within hs

/-- The definition of a function is decided by its parts. -/
theorem functionDefinition_decided (hs : s.Closed) (hread : DecidedBelow p s.rest.length read)
    (hkind : s.current.kind = .defWord) :
    Decided p s.rest.length (functionDefinition p read) s := by
  refine (leafOf_takes hs hkind rfl).bind fun _ _ h₁ => ?_
  refine (expectLeaf_decided h₁ rfl).bind fun _ _ h₂ => ?_
  refine (paramList_decided h₂ hread).bind fun _ _ h₃ => ?_
  refine (optionalType_decided h₃ hread rfl).bind fun _ _ h₄ => ?_
  exact (hread.block h₄).bind fun _ _ h₅ => .pure _ h₅

/-- So is the definition of a class. -/
theorem classDefinition_decided (hs : s.Closed) (hread : DecidedBelow p s.rest.length read)
    (hkind : s.current.kind = .classWord) :
    Decided p s.rest.length (classDefinition p read) s := by
  refine (leafOf_takes hs hkind rfl).bind fun _ _ h₁ => ?_
  refine (expectLeaf_decided h₁ rfl).bind fun _ _ h₂ => ?_
  refine (optionally_decided h₂ fun _ => ?_).bind fun _ _ h₃ => ?_
  · exact ((argList_decided h₂.closed (hread.behind h₂)).within h₂).single
  · exact (hread.block h₃).bind fun _ _ h₄ => .pure _ h₄

end Readers

/-! ## All phrases -/

section Phrases

variable {read : Goal → Parse SyntaxNode} {goal : Goal}

/-- A phrase is decided if the phrases of less work are. -/
theorem rule_decided (hp : p.grammar = .standard) (hs : s.Closed)
    (hstarts : goal.StartsAt s.current.kind)
    (hread : ∀ smaller t, t.Closed → smaller.StartsAt t.current.kind →
      smaller.work t < goal.work s → Decided p t.rest.length (read smaller) t) :
    Decided p s.rest.length (p.rule read goal) s := by
  have hwork (smaller : Goal) (t : TokenStream) (hless : t.rest.length < s.rest.length) :
      smaller.work t < goal.work s := by
    have hrank := smaller.rank_le
    rw [Goal.work, Goal.work]
    omega
  have hbelow : DecidedBelow p s.rest.length read :=
    { expression := fun above t ht =>
        hread (.expression above) t ht.closed trivial (hwork _ t ht.less)
      form := fun form t ht hstarts => hread (.form form) t ht.closed hstarts (hwork _ t ht.less)
      suffix := fun left power t ht hstarts =>
        hread (.suffix _ left power) t ht.closed hstarts (hwork _ t ht.less) }
  have hkind {kind : TokenKind} (h : decide (s.current.kind = kind) = true) :
      s.current.kind = kind := of_decide_eq_true h
  cases goal with
  | expression above =>
    refine expression_decided hp above hs hbelow fun form hform => ?_
    refine hread (.form form) s hs (startsAt_of_expression hform) ?_
    have hrank : (Goal.form form).rank = 0 := rank_of_expression hform
    rw [Goal.work, Goal.work, hrank, Goal.rank]
    omega
  | suffix suffix left power =>
    have hkind := ne_eof_of_suffix hstarts
    cases suffix with
    | binary => exact binary_decided hs hbelow hkind
    | conditional => exact conditional_decided hs hbelow hkind
    | call => exact call_decided hs hbelow
    | member => exact member_decided hs hkind
    | index => exact index_decided hs hbelow hkind
  | form form =>
    cases form with
    | primary => exact primary_decided hs
    | unary => exact unary_decided hs hbelow hstarts
    | grouping => exact grouping_decided hs hbelow (hkind hstarts)
    | array => exact array_decided hs hbelow (hkind hstarts)
    | set => exact set_decided hs hbelow (hkind hstarts)
    | argList => exact argList_decided hs hbelow
    | statement =>
      refine statement_decided hp hs hbelow (fun form hform => ?_) ?_
      · refine hread (.form form) s hs (startsAt_of_statement hform) ?_
        rw [Goal.work, Goal.work, Goal.rank, rank_of_statement hform, Goal.rank, Form.rank]
        omega
      · refine hread (.expression .lowest) s hs trivial ?_
        rw [Goal.work, Goal.work, Goal.rank, Goal.rank, Form.rank]
        omega
    | block =>
      refine block_decided hs hbelow fun t ht => ?_
      refine hread (.form .statement) t ht.closed rfl ?_
      have hless := ht.less
      rw [Goal.work, Goal.work, Goal.rank, Goal.rank, Form.rank, Form.rank]
      omega
    | ifStatement => exact ifStatement_decided hs hbelow (hkind hstarts)
    | whileStatement => exact whileStatement_decided hs hbelow (hkind hstarts)
    | forStatement => exact forStatement_decided hs hbelow (hkind hstarts)
    | returnStatement => exact returnStatement_decided hs hbelow (hkind hstarts)
    | keywordStatement => exact keywordStatement_decided hs
    | functionDefinition => exact functionDefinition_decided hs hbelow (hkind hstarts)
    | classDefinition => exact classDefinition_decided hs hbelow (hkind hstarts)

/-- What is read of a phrase is decided by the tokens that it takes and the next one. -/
theorem read_decided (hp : p.grammar = .standard) (goal : Goal) (hs : s.Closed)
    (hstarts : goal.StartsAt s.current.kind) : Decided p s.rest.length (p.read goal) s := by
  induction hwork : goal.work s using Nat.strongRecOn generalizing goal s with
  | ind work ih =>
    subst hwork
    refine .congr hs (fun u hu hcurrent => ?_) (rule_decided hp hs hstarts
      fun smaller t ht hstarts hless => ih _ hless smaller ht hstarts rfl)
    exact (rule_eq_read hp hu (hcurrent ▸ hstarts) fun _ _ _ _ _ => rfl).symm

/-- What reads phrases is decided on streams of any length. -/
theorem read_decidedBelow (hp : p.grammar = .standard) (bound : Nat) :
    DecidedBelow p bound p.read where
  expression above _ hs := read_decided hp (.expression above) hs.closed trivial
  form form _ hs hstarts := read_decided hp (.form form) hs.closed hstarts
  suffix left _ _ hs hstarts := read_decided hp (.suffix _ left _) hs.closed hstarts

/-- Statements up to the end of the file are decided. -/
theorem script_decided (hp : p.grammar = .standard) (hs : s.Below bound) :
    Decided p bound p.script s :=
  (run_decided .script hs (read_decidedBelow hp bound)).bind fun _ _ ht => .pure _ ht

end Phrases

/-! ## Token lists -/

/-- A failure names a token at the place where it starts; there is none to be named if that is
inside a character. -/
inductive Failure.Refuses (source : Source) (token : Token) : Failure → Prop where
  | refused (reason : Option String) {location : Location}
    (h : Source.location? source token.span.start = some location) :
    Refuses source token (.refused ⟨.unexpected reason token, location⟩)
  | offBoundary (h : Source.location? source token.span.start = none) :
    Refuses source token .offBoundary

/-- A diagnostic that names a token is about its text, at the location of its start. -/
theorem Failure.Refuses.diagnostic {source : Source} {token : Token} {diagnostic : Diagnostic}
    (h : (Failure.refused diagnostic).Refuses source token) :
    (∃ reason, diagnostic.cause = .unexpected reason token) ∧
      Source.location? source token.span.start = some diagnostic.location := by
  cases h with
  | refused reason h => exact ⟨⟨reason, rfl⟩, h⟩

/-- A refusal of a token names it, or breaks off because the token starts inside of a character. -/
theorem exists_refuses (source : Source) (token : Token) (reason : Option String) :
    ∃ failure, failure.Refuses source token ∧
      (Outcome.refuseAt source token.span.start (.unexpected reason token) : Outcome α) =
        .error failure := by
  unfold Outcome.refuseAt
  cases hlocation : Source.location? source token.span.start with
  | some location => exact ⟨_, .refused reason hlocation, rfl⟩
  | none => exact ⟨_, .offBoundary hlocation, rfl⟩

namespace TokenStream

/-- Token lists with the same first tokens are streams with the same tokens ahead. -/
theorem ofTokens_ahead {tokens taken more : List Token} {token : Token} {stop : Nat}
    (h : complete tokens stop = taken ++ token :: more) :
    ofTokens tokens stop = ahead taken ⟨token, more⟩ ∧ Closed ⟨token, more⟩ := by
  obtain ⟨hlist, hclosed⟩ := toList_ofTokens tokens stop
  have hahead : ofTokens tokens stop = ahead taken ⟨token, more⟩ := by
    refine eq_of_toList ?_
    rw [hlist, toList_ahead, h, toList]
  refine ⟨hahead, ?_⟩
  have hne : token :: more ≠ [] := List.cons_ne_nil _ _
  rw [Closed, hlist, h, List.getLast?_append_of_ne_nil _ hne] at hclosed
  exact hclosed

end TokenStream

/-- A token list is parsed, or all token lists are refused that are the same up to some token. -/
theorem parse_cases (tokens : List Token) (source : Source) :
    (∃ tree, parse tokens source = .ok tree) ∨ ∃ taken token more reason,
      TokenStream.complete tokens (Source.byteSize source) = taken ++ token :: more ∧
      ∀ others more', TokenStream.complete others (Source.byteSize source) =
          taken ++ token :: more' →
        parse others source = .refuseAt source token.span.start (.unexpected reason token) := by
  obtain ⟨hlist, hclosed⟩ := toList_ofTokens tokens (Source.byteSize source)
  have hparse (tokens : List Token) : parse tokens source =
      (Parser.script ⟨source, .standard⟩ (TokenStream.ofTokens tokens _)).bind fun entry =>
        .ok entry.1 := rfl
  have hscript : Decided ⟨source, .standard⟩ _ (Parser.script ⟨source, .standard⟩) _ :=
    script_decided rfl hclosed.below
  cases hscript with
  | gives tree takes less reads =>
    rw [hparse, takes.starts, reads _ takes.closed rfl]
    exact .inl ⟨tree, rfl⟩
  | @refuses taken after reason takes refused =>
    rw [takes.starts, TokenStream.toList_ahead] at hlist
    refine .inr ⟨taken, after.current, after.rest, reason, hlist.symm, ?_⟩
    intro others more hothers
    obtain ⟨hahead, hclosed⟩ := TokenStream.ofTokens_ahead hothers
    rw [hparse, hahead, refused _ hclosed rfl, Outcome.bind_refuseAt]

/-- A token list that is not parsed is refused at one of its tokens, and so are all token lists that
are the same up to this token. -/
theorem parse_decided (tokens : List Token) (source : Source) {failure : Failure}
    (h : parse tokens source = .error failure) :
    ∃ index token,
      (TokenStream.complete tokens (Source.byteSize source))[index]? = some token ∧
      failure.Refuses source token ∧
      ∀ others, (TokenStream.complete others (Source.byteSize source)).take (index + 1) =
          (TokenStream.complete tokens (Source.byteSize source)).take (index + 1) →
        parse others source = .error failure := by
  rcases parse_cases tokens source with ⟨tree, htree⟩ | ⟨taken, token, more, reason, hlist, hothers⟩
  · rw [htree] at h
    nomatch h
  · obtain ⟨_, hrefuses, hfailure⟩ := exists_refuses source token reason
    rw [hothers tokens more hlist, hfailure] at h
    obtain rfl := Except.error.inj h
    refine ⟨taken.length, token, ?_, hrefuses, fun others hsame => ?_⟩
    · rw [hlist, List.getElem?_append_right (Nat.le_refl _), Nat.sub_self, List.getElem?_cons_zero]
    · have hsplit := List.take_append_drop (taken.length + 1)
        (TokenStream.complete others (Source.byteSize source))
      rw [hsame, hlist, List.take_length_add_append, List.take_succ_cons, List.take_zero,
        List.append_assoc, List.singleton_append] at hsplit
      rw [hothers others _ hsplit.symm, hfailure]

/-- A closing parenthesis on its own is refused, and so it is with a name behind it. -/
theorem parse_decided_closingParenthesis :
    ∃ failure, parse [⟨.closeParen, ")", ⟨0, 1⟩⟩] [')', 'x'] = .error failure ∧
      parse [⟨.closeParen, ")", ⟨0, 1⟩⟩, ⟨.identifier, "x", ⟨1, 2⟩⟩] [')', 'x'] =
        .error failure := by
  have hfails : parse [⟨.closeParen, ")", ⟨0, 1⟩⟩] [')', 'x'] =
      .error (.refused ⟨.unexpectedToken ")", ⟨1, 1, ")x"⟩⟩) := rfl
  obtain ⟨index, token, htoken, hrefuses, hothers⟩ := parse_decided _ _ hfails
  match index, htoken with
  | 0, _ => exact ⟨_, hfails, hothers _ rfl⟩
  | 1, htoken =>
    -- The end of the file goes by another name.
    obtain rfl := Option.some.inj htoken
    obtain ⟨reason, hcause⟩ := hrefuses.diagnostic.1
    cases reason with
    | none => exact absurd (Cause.unexpectedToken.inj hcause) (by decide)
    | some reason => nomatch hcause

end Offside
