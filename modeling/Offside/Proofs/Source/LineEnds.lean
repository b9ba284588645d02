import Offside.Proofs.Source.LineTable

/-!
# Line ends of two characters

A source with a carriage return put in front of every line feed.  Positions that go together in
the two sources have the same location, as the carriage return at the end of a line is no part of
the text of the line.

Main definitions:

- `Source.withReturns`: a source with a carriage return in front of every line feed.
- `Mirrored`: two positions go together in a source and the one with carriage returns.
- `OnSameLine`: two positions of two sources have locations on the same line.

Main results:

- Theorem `Source.locationBetween_withReturns`: the location of a position stays.
- Theorems `Source.takeWhile_withReturns` and `Source.dropWhile_withReturns`: a text of one line
  is cut off in the same way.
-/

namespace Offside
namespace Source

/-- A source with a carriage return in front of every line feed. -/
def withReturns (source : Source) : Source :=
  source.flatMap fun c => if c = '\n' then ['\r', '\n'] else [c]

/-- Nothing is added to an empty text. -/
@[simp]
theorem withReturns_nil : withReturns [] = [] := rfl

/-- A carriage return is put in front of each line feed. -/
@[simp]
theorem withReturns_lineFeed (rest : Source) :
    withReturns ('\n' :: rest) = '\r' :: '\n' :: withReturns rest := rfl

/-- Other characters stay as they are. -/
theorem withReturns_cons {c : Char} (h : c ≠ '\n') (rest : Source) :
    withReturns (c :: rest) = c :: withReturns rest := by
  rw [withReturns, List.flatMap_cons, if_neg h]
  rfl

/-- Two texts get their carriage returns one after the other. -/
@[simp]
theorem withReturns_append (text rest : Source) :
    withReturns (text ++ rest) = withReturns text ++ withReturns rest :=
  List.flatMap_append

/-- Only the empty text becomes empty. -/
theorem eq_nil_of_withReturns {text : Source} (h : withReturns text = []) : text = [] := by
  cases text with
  | nil => rfl
  | cons c rest =>
    by_cases hc : c = '\n'
    · subst hc
      nomatch h
    · rw [withReturns_cons hc] at h
      nomatch h

/-- A text of one line stays as it is. -/
theorem withReturns_eq_self {text : Source} (h : '\n' ∉ text) : withReturns text = text := by
  induction text with
  | nil => rfl
  | cons c text ih =>
    rw [List.mem_cons, not_or] at h
    rw [withReturns_cons (Ne.symm h.1), ih h.2]

/-- The number of line feeds stays the same. -/
@[simp]
theorem count_withReturns (text : Source) : (withReturns text).count '\n' = text.count '\n' := by
  induction text with
  | nil => rfl
  | cons c text ih =>
    by_cases hc : c = '\n'
    · subst hc
      simp [ih]
    · rw [withReturns_cons hc, List.count_cons, List.count_cons, ih]

/-- So does whether there is one. -/
theorem lineFeed_mem_withReturns {text : Source} : '\n' ∈ withReturns text ↔ '\n' ∈ text := by
  rw [← List.count_pos_iff, ← List.count_pos_iff, count_withReturns]

/-! ## Lines -/

section OneLine

variable {passes : Char → Bool}

/-- What is cut off before the end of a line is cut off in the same way. -/
theorem takeWhile_withReturns (hfeed : passes '\n' = false) (hreturn : passes '\r' = false)
    (text : Source) : (withReturns text).takeWhile passes = text.takeWhile passes := by
  induction text with
  | nil => rfl
  | cons c text ih =>
    by_cases hc : c = '\n'
    · subst hc
      rw [withReturns_lineFeed, List.takeWhile_cons_of_neg (by simp [hreturn]),
        List.takeWhile_cons_of_neg (by simp [hfeed])]
    · rw [withReturns_cons hc, List.takeWhile_cons, List.takeWhile_cons, ih]

/-- What is dropped up to the end of a line is dropped with carriage returns, too. -/
theorem dropWhile_withReturns (hfeed : passes '\n' = false) (hreturn : passes '\r' = false)
    (text : Source) :
    (withReturns text).dropWhile passes = withReturns (text.dropWhile passes) := by
  induction text with
  | nil => rfl
  | cons c text ih =>
    by_cases hc : c = '\n'
    · subst hc
      rw [withReturns_lineFeed, List.dropWhile_cons_of_neg (by simp [hreturn]),
        List.dropWhile_cons_of_neg (by simp [hfeed]), withReturns_lineFeed]
    · rw [withReturns_cons hc, List.dropWhile_cons, List.dropWhile_cons, ih]
      split
      · rfl
      · rw [withReturns_cons hc]

end OneLine

/-- No character of a line is a line feed. -/
theorem all_ne_lineFeed {line : Source} (h : '\n' ∉ line) :
    ∀ c ∈ line.reverse, decide (c ≠ '\n') = true := by
  intro c hc
  have hne : c ≠ '\n' := fun heq => h (heq ▸ List.mem_reverse.mp hc)
  simpa using hne

/-- The last line of a single line is this line. -/
theorem lastLine_eq_self {line : Source} (h : '\n' ∉ line) : lastLine line = line := by
  rw [lastLine, List.takeWhile_eq_self_iff.mpr (all_ne_lineFeed h), List.reverse_reverse]

/-- The last line starts behind the last line feed. -/
theorem lastLine_append {line : Source} (h : '\n' ∉ line) (before : Source) :
    lastLine (before ++ '\n' :: line) = line := by
  rw [lastLine, List.reverse_append, List.reverse_cons, List.append_assoc,
    List.takeWhile_append_of_pos (all_ne_lineFeed h)]
  simp

/-- The last line, which no line feed ends, gets no carriage return. -/
@[simp]
theorem lastLine_withReturns (text : Source) : lastLine (withReturns text) = lastLine text := by
  obtain ⟨whole, htext, hwhole⟩ := exists_eq_append_lastLine text
  have hline := not_mem_lastLine text
  generalize lastLine text = line at htext hline ⊢
  subst htext
  rw [withReturns_append, withReturns_eq_self hline]
  rcases hwhole with rfl | ⟨more, rfl⟩
  · exact lastLine_eq_self hline
  · have hall : withReturns (more ++ ['\n']) ++ line =
        withReturns more ++ ['\r'] ++ '\n' :: line := by simp
    rw [hall, lastLine_append hline]

/-- The first line may end with one more carriage return. -/
theorem firstLine_withReturns (text : Source) :
    firstLine (withReturns text) = firstLine text ∨
      firstLine (withReturns text) = firstLine text ++ ['\r'] := by
  induction text with
  | nil => exact .inl rfl
  | cons c text ih =>
    by_cases hc : c = '\n'
    · subst hc
      exact .inr (by simp [firstLine])
    · have hcons (rest : Source) : firstLine (c :: rest) = c :: firstLine rest :=
        List.takeWhile_cons_of_pos (by simpa using hc)
      rw [withReturns_cons hc, hcons, hcons, List.cons_append]
      exact ih.imp (congrArg (c :: ·)) (congrArg (c :: ·))

/-- A carriage return at the end of a line is dropped. -/
@[simp]
theorem dropFinalReturns_concat (line : Source) :
    dropFinalReturns (line ++ ['\r']) = dropFinalReturns line := by
  simp [dropFinalReturns]

/-- The location between two pieces of a source is that between these pieces with carriage
returns. -/
theorem locationBetween_withReturns (before after : Source) :
    locationBetween (withReturns before) (withReturns after) = locationBetween before after := by
  rw [locationBetween, locationBetween, count_withReturns, lastLine_withReturns]
  rcases firstLine_withReturns after with hfirst | hfirst
  · rw [hfirst]
  · rw [hfirst, ← List.append_assoc, dropFinalReturns_concat]

end Source

/-! ## Positions -/

/-- Two positions go together: one in a source, the other in the source with carriage returns, in
front of the same characters. -/
def Mirrored (source : Source) (position position' : Nat) : Prop :=
  ∃ before after, source = before ++ after ∧ position = Source.byteSize before ∧
    position' = Source.byteSize before.withReturns

/-- Two positions have locations on the same line of two sources. -/
def OnSameLine (source source' : Source) (position position' : Nat) : Prop :=
  ∃ location location', Source.location? source position = some location ∧
    Source.location? source' position' = some location' ∧ location.line = location'.line

/-- Behind as many line feeds, two positions are on the same line. -/
theorem onSameLine_of_count {source source' before after before' after' : Source}
    (hsource : source = before ++ after) (hsource' : source' = before' ++ after')
    (h : before.count '\n' = before'.count '\n') :
    OnSameLine source source' (Source.byteSize before) (Source.byteSize before') := by
  subst hsource
  subst hsource'
  exact ⟨_, _, Source.location?_append before after, Source.location?_append before' after',
    congrArg (· + 1) h⟩

namespace Mirrored

variable {source : Source} {position position' : Nat}

/-- The start of a source is mirrored in the start of the other. -/
theorem zero (source : Source) : Mirrored source 0 0 := ⟨[], source, rfl, rfl, rfl⟩

/-- A mirrored position is a boundary. -/
theorem cuts (h : Mirrored source position position') : Cuts source position := by
  rcases h with ⟨before, after, hsource, hposition, -⟩
  exact ⟨before, after, hsource, hposition⟩

/-- Positions that go together have the same location. -/
theorem location? (h : Mirrored source position position') :
    ∃ location, Source.location? source position = some location ∧
      Source.location? source.withReturns position' = some location := by
  rcases h with ⟨before, after, rfl, rfl, rfl⟩
  refine ⟨_, Source.location?_append before after, ?_⟩
  rw [Source.withReturns_append, Source.location?_append, Source.locationBetween_withReturns]

/-- Mirrored positions are on the same line. -/
theorem onSameLine (h : Mirrored source position position') :
    OnSameLine source source.withReturns position position' := by
  obtain ⟨location, hleft, hright⟩ := h.location?
  exact ⟨location, location, hleft, hright, rfl⟩

/-- The text between two positions gets carriage returns. -/
theorem slice?_eq {stop stop' : Nat} (hstart : Mirrored source position position')
    (hstop : Mirrored source stop stop') :
    Source.slice? source.withReturns ⟨position', stop'⟩ =
      (Source.slice? source ⟨position, stop⟩).map Source.withReturns := by
  rcases hstart with ⟨before, rest, rfl, rfl, rfl⟩
  rcases hstop with ⟨before', rest', hsource, rfl, rfl⟩
  rcases List.append_eq_append_iff.mp hsource with ⟨text, rfl, rfl⟩ | ⟨text, rfl, rfl⟩
  · rw [Source.slice?_append, Source.withReturns_append, Source.withReturns_append,
      Source.withReturns_append, Source.slice?_append, Option.map_some]
  -- unless it is empty, the text lies in front of where it should start
  · by_cases hnil : text = []
    · subst hnil
      have htext := Source.slice?_append before' [] rest
      have htext' := Source.slice?_append before'.withReturns [] rest.withReturns
      simp only [List.append_nil, List.nil_append, Source.withReturns_append] at htext htext' ⊢
      rw [htext, htext', Option.map_some, Source.withReturns_nil]
    · have hpos := Source.byteSize_pos hnil
      have hpos' := Source.byteSize_pos (mt Source.eq_nil_of_withReturns hnil)
      rw [Source.slice?, if_neg, Source.slice?, if_neg, Option.map_none]
      · simp only [Source.byteSize_append]
        omega
      · simp only [Source.withReturns_append, Source.byteSize_append]
        omega

end Mirrored

/-- A text is a word of one line with carriage returns exactly when it is this word without. -/
theorem eq_word_iff (text : Source) {word : String} (h : '\n' ∉ word.toList) :
    String.ofList text = word ↔ String.ofList text.withReturns = word := by
  have hlist (other : Source) : String.ofList other = word ↔ other = word.toList := by
    rw [← String.toList_inj, String.toList_ofList]
  rw [hlist, hlist]
  constructor
  · rintro rfl
    exact Source.withReturns_eq_self h
  · intro heq
    have hline : '\n' ∉ text := fun hmem =>
      h (heq ▸ Source.lineFeed_mem_withReturns.mpr hmem)
    rw [← heq, Source.withReturns_eq_self hline]

end Offside
