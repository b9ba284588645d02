import Offside.Diagnostic
import Mathlib.Tactic.ByContra

/-!
# Places in a source

Spans and positions that come from cutting a source into pieces have a text and a location.

Main definitions:

- `Covers`: a span of a source covers a text.
- `Cuts`: a source can be cut at a position.

Main results:

- Theorem `Covers.slice?_eq`: the text of a span is the one it covers.
- Theorem `covers_of_slice?`: a span that has a text covers it.
- Theorem `Cuts.location`: a position where a source can be cut has a location.
-/

namespace Offside

theorem Source.byteSize_pos {text : Source} (h : text ≠ []) : 0 < Source.byteSize text := by
  cases text with
  | nil => exact absurd rfl h
  | cons c text => exact Nat.add_pos_left c.utf8Size_pos _

/-- A span of a source covers a text. -/
def Covers (source : Source) (span : Span) (text : Source) : Prop :=
  ∃ before after, source = before ++ (text ++ after) ∧
    span = ⟨Source.byteSize before, Source.byteSize before + Source.byteSize text⟩

/-- The text of a span is the one it covers. -/
theorem Covers.slice?_eq {source text : Source} {span : Span} (h : Covers source span text) :
    Source.slice? source span = some text := by
  rcases h with ⟨before, after, rfl, rfl⟩
  have hle : Source.byteSize before ≤ Source.byteSize before + Source.byteSize text :=
    Nat.le_add_right _ _
  simp only [Source.slice?, if_pos hle, Source.splitAt?_append, Option.bind_some,
    Nat.add_sub_cancel_left, Option.map_some]

/-- Between two places, there is the text between them. -/
theorem Source.slice?_append (before text after : Source) :
    Source.slice? (before ++ (text ++ after))
      ⟨Source.byteSize before, Source.byteSize (before ++ text)⟩ = some text :=
  Covers.slice?_eq ⟨before, after, rfl, by rw [Source.byteSize_append]⟩

/-- A position where a source can be cut. -/
def Cuts (source : Source) (position : Nat) : Prop :=
  ∃ before after, source = before ++ after ∧ position = Source.byteSize before

theorem Covers.cuts {source text : Source} {span : Span} (h : Covers source span text) :
    Cuts source span.start := by
  rcases h with ⟨before, after, rfl, rfl⟩
  exact ⟨before, text ++ after, rfl, rfl⟩

theorem Covers.cuts_stop {source text : Source} {span : Span} (h : Covers source span text) :
    Cuts source span.stop := by
  rcases h with ⟨before, after, rfl, rfl⟩
  exact ⟨before ++ text, after, (List.append_assoc ..).symm, (Source.byteSize_append ..).symm⟩

theorem Covers.le {source text : Source} {span : Span} (h : Covers source span text) :
    span.start ≤ span.stop := by
  rcases h with ⟨before, after, -, rfl⟩
  exact Nat.le_add_right _ _

theorem Cuts.le {source : Source} {position : Nat} (h : Cuts source position) :
    position ≤ Source.byteSize source := by
  rcases h with ⟨before, after, rfl, rfl⟩
  rw [Source.byteSize_append]
  exact Nat.le_add_right _ _

/-- A span that has a text covers it. -/
theorem covers_of_slice? {source text : Source} {span : Span}
    (h : Source.slice? source span = some text) : Covers source span text := by
  rcases span with ⟨start, stop⟩
  rw [Source.slice?] at h
  split at h
  · next hle =>
    obtain ⟨⟨before, rest⟩, hbefore, hrest⟩ := Option.bind_eq_some_iff.mp h
    obtain ⟨⟨inside, after⟩, hinside, rfl⟩ := Option.map_eq_some_iff.mp hrest
    obtain ⟨rfl, rfl⟩ := Source.eq_append_of_splitAt? hbefore
    obtain ⟨rfl, hsize⟩ := Source.eq_append_of_splitAt? hinside
    exact ⟨before, after, rfl, by rw [hsize, Nat.add_sub_cancel' hle]⟩
  · nomatch h

/-- Where a source can be cut, it has an empty text. -/
theorem Cuts.covers_empty {source : Source} {position : Nat} (h : Cuts source position) :
    Covers source (.empty position) [] := by
  rcases h with ⟨before, after, rfl, rfl⟩
  exact ⟨before, after, rfl, rfl⟩

/-- Between two positions where a source can be cut, it has a text. -/
theorem Cuts.covers_between {source : Source} {start stop : Nat} (hstart : Cuts source start)
    (hstop : Cuts source stop) (hle : start ≤ stop) : ∃ text, Covers source ⟨start, stop⟩ text := by
  rcases hstart with ⟨before, rest, rfl, rfl⟩
  rcases hstop with ⟨before', rest', hsource, rfl⟩
  rcases List.append_eq_append_iff.mp hsource with ⟨text, rfl, rfl⟩ | ⟨text, rfl, rfl⟩
  · exact ⟨text, before, rest', rfl, by rw [Source.byteSize_append]⟩
  · have hnil : text = [] := by
      by_contra hne
      have hpos := Source.byteSize_pos hne
      rw [Source.byteSize_append] at hle
      omega
    subst hnil
    exact ⟨[], before', rest, by simp, by simp⟩

/-- Between two pieces of a source, there is the location between them. -/
theorem Source.location?_append (before after : Source) :
    Source.location? (before ++ after) (Source.byteSize before) =
      some (Source.locationBetween before after) := by
  have hmin : min (Source.byteSize before) (Source.byteSize (before ++ after)) =
      Source.byteSize before := by
    rw [Source.byteSize_append]
    omega
  rw [Source.location?, hmin, Source.splitAt?_append, Option.map_some]

/-- A position where the source can be cut has a location. -/
theorem Cuts.location {source : Source} {position : Nat} (h : Cuts source position) :
    ∃ location, Outcome.locate source position = .ok location := by
  rcases h with ⟨before, after, rfl, rfl⟩
  refine ⟨Source.locationBetween before after, ?_⟩
  rw [Outcome.locate, Source.location?_append]

end Offside
