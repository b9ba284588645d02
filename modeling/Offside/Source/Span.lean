/-!
# Source texts and spans

A source is the list of its characters, but positions in it are counted in bytes
of its UTF-8 form.  A position is meaningful only where a character starts (or at
the very end), so cutting a source at a position may fail.

* `Source.splitAt?` cuts a source in two at a position.
* `Source.slice?` is the text of a span.
-/

namespace Offside

/-- The text of a program, character by character. -/
abbrev Source := List Char

/-- A half-open range `[start, stop)` of byte positions. -/
structure Span where
  start : Nat
  stop : Nat
  deriving DecidableEq, Repr, Inhabited

/-- The empty span at one position. -/
def Span.empty (position : Nat) : Span := ⟨position, position⟩

namespace Source

/-- The number of bytes of a source in UTF-8. -/
def byteSize (source : Source) : Nat := source.foldr (fun c size => c.utf8Size + size) 0

/-- The characters before and from byte position `n`; there are none when `n` lies
inside a character or beyond the end. -/
def splitAt? : Source → Nat → Option (Source × Source)
  | source, 0 => some ([], source)
  | [], _ + 1 => none
  | c :: rest, n + 1 =>
    if c.utf8Size ≤ n + 1 then
      (splitAt? rest (n + 1 - c.utf8Size)).map fun (before, after) => (c :: before, after)
    else none

/-- The characters of a span, if both of its ends are positions of the source in
the right order. -/
def slice? (source : Source) (span : Span) : Option Source :=
  if span.start ≤ span.stop then
    (splitAt? source span.start).bind fun (_, rest) =>
      (splitAt? rest (span.stop - span.start)).map Prod.fst
  else none

/-! ## Cutting at a position -/

/-- The empty text takes no bytes. -/
@[simp]
theorem byteSize_nil : byteSize [] = 0 := rfl

/-- The bytes of a text are those of its first character and of the rest. -/
@[simp]
theorem byteSize_cons (c : Char) (rest : Source) :
    byteSize (c :: rest) = c.utf8Size + byteSize rest := rfl

/-- The bytes of two texts in a row are those of both. -/
@[simp]
theorem byteSize_append (s t : Source) : byteSize (s ++ t) = byteSize s + byteSize t := by
  induction s with
  | nil => simp
  | cons c rest ih =>
    rw [List.cons_append, byteSize_cons, byteSize_cons, ih, Nat.add_assoc]

/-- At the start nothing is split off. -/
@[simp]
theorem splitAt?_zero (source : Source) : splitAt? source 0 = some ([], source) := by
  cases source <;> rfl

/-- Cutting a text behind its first part gives back the two parts. -/
theorem splitAt?_append (s t : Source) : splitAt? (s ++ t) (byteSize s) = some (s, t) := by
  induction s with
  | nil => simp
  | cons c s ih =>
    have hc : 0 < c.utf8Size := Char.utf8Size_pos c
    obtain ⟨n, hn⟩ : ∃ n, c.utf8Size + byteSize s = n + 1 :=
      ⟨c.utf8Size + byteSize s - 1, by omega⟩
    have hs : n + 1 - c.utf8Size = byteSize s := by omega
    have hle : c.utf8Size ≤ n + 1 := by omega
    simp [hn, splitAt?, hs, hle, ih]

/-- A cut loses nothing, and its first part has as many bytes as asked for. -/
theorem eq_append_of_splitAt? {s before after : Source} {n : Nat}
    (h : splitAt? s n = some (before, after)) : s = before ++ after ∧ byteSize before = n := by
  induction s generalizing n before after with
  | nil =>
    cases n with
    | zero => simp at h; simp [h]
    | succ n => simp [splitAt?] at h
  | cons c s ih =>
    cases n with
    | zero => simp at h; obtain ⟨rfl, rfl⟩ := h; simp
    | succ n =>
      simp only [splitAt?] at h
      split at h
      · obtain ⟨⟨b, a⟩, hs, he⟩ := Option.map_eq_some_iff.1 h
        obtain ⟨rfl, rfl⟩ := Prod.mk.inj he
        obtain ⟨rfl, hb⟩ := ih hs
        simp only [List.cons_append, byteSize_cons, true_and]
        omega
      · cases h

end Source
end Offside
