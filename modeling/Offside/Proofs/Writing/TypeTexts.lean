import Offside.Lowering.Types
import Offside.Proofs.Typing.Writable
import Offside.Proofs.Writing.Scanning

/-!
# The texts of types

The text of a type is made up of words: names and `None`, brackets, and commas with a blank behind
them.  These words do not tell a class without type arguments from the type that has its name, so
they spell a type which may be another one.  This module says which type the text of a type spells,
and for which types it is the type itself.

Main definitions:

- `Ty.equal`: two types are the same with all their type arguments.
- `Ty.Named`: all classes in a type have names that can be written.
- `Ty.components`: a type, and all types in it at any depth.
- `Ty.reread`: the type that the text of a type spells.
- `SpellsTy`: words spell a type.
- `MadeUp`: a text is made up of words, whatever follows.

Main results:

- Theorem `Ty.reread_eq_iff`: the types whose text spells them.
- Theorem `Ty.Named.inWords`: the text of a type is made up of words that spell a type.
-/

namespace Offside

open Lowering (typeOfName)

/-! ## Equality -/

namespace Ty

mutual

/-- Whether two types are the same with all their type arguments.  The equality of the language does
not look at these. -/
def equal : Ty → Ty → Bool
  | .num, .num | .bool, .bool | .none, .none | .typeVar, .typeVar => true
  | .object name arguments, .object name' arguments' =>
    decide (name = name') && allEqual arguments arguments'
  | .list element, .list element' | .set element, .set element'
  | .generator element, .generator element' => equal element element'
  | .either left right, .either left' right' => equal left left' && equal right right'
  | _, _ => false

def allEqual : List Ty → List Ty → Bool
  | [], [] => true
  | first :: rest, first' :: rest' => equal first first' && allEqual rest rest'
  | _, _ => false

end

mutual

/-- The test for equality tells whether types are equal, type arguments included. -/
theorem equal_iff (ty ty' : Ty) : equal ty ty' = true ↔ ty = ty' := by
  cases ty <;> cases ty' <;> simp [equal, equal_iff, allEqual_iff]

/-- So it is for types in a row. -/
theorem allEqual_iff (tys tys' : List Ty) : allEqual tys tys' = true ↔ tys = tys' := by
  cases tys <;> cases tys' <;> simp [allEqual, equal_iff, allEqual_iff]

end

instance : DecidableEq Ty := fun ty ty' => decidable_of_iff _ (equal_iff ty ty')

end Ty

/-! ## Names in types -/

mutual

/-- All classes in a type have names that can be written. -/
def Ty.Named : Ty → Prop
  | .num | .bool | .none | .typeVar => True
  | .object name arguments => IsName name ∧ Ty.AllNamed arguments
  | .list element | .set element | .generator element => element.Named
  | .either left right => left.Named ∧ right.Named

/-- All classes in several types have names that can be written. -/
def Ty.AllNamed : List Ty → Prop
  | [] => True
  | first :: rest => first.Named ∧ Ty.AllNamed rest

end

/-- Types in a row are named if each of them is. -/
theorem Ty.allNamed_iff {tys : List Ty} : Ty.AllNamed tys ↔ ∀ ty ∈ tys, ty.Named := by
  induction tys with
  | nil => simp [Ty.AllNamed]
  | cons first rest ih => rw [Ty.AllNamed, ih, List.forall_mem_cons]

namespace Ty

/-- The names that are no names of classes where a type is written. -/
def ownNames : List String := ["int", "bool", "TypeVar"]

/-- A name is that of a class unless the language has a type of this name. -/
theorem typeOfName_eq_plain_iff {name : String} :
    typeOfName name = .plain name ↔ name ∉ ownNames := by
  unfold typeOfName plain ownNames
  split
  · next h => simp [h]
  · split
    · next h => simp [h]
    · split <;> simp [*]

mutual

/-- A type, and all types in it at any depth. -/
def components : Ty → List Ty
  | .object name arguments => .object name arguments :: componentsOf arguments
  | .list element => .list element :: element.components
  | .set element => .set element :: element.components
  | .generator element => .generator element :: element.components
  | .either left right => .either left right :: (left.components ++ right.components)
  | ty => [ty]

/-- Several types, and all types in them at any depth. -/
def componentsOf : List Ty → List Ty
  | [] => []
  | first :: rest => first.components ++ componentsOf rest

end

/-! ## Reading a text as a type -/

mutual

/-- The type that the text of a type spells.  A class without type arguments is written like the
type that has its name, and the types that sources cannot write are written like classes. -/
def reread : Ty → Ty
  | .object name [] => typeOfName name
  | .object name (first :: rest) => .object name (first.reread :: rereadAll rest)
  | .list element => .list element.reread
  | .set element => .object "set" [element.reread]
  | .generator element => .object "generator" [element.reread]
  | .either left right => .object "either" [left.reread, right.reread]
  | ty => ty

/-- The types that the texts of several types spell. -/
def rereadAll : List Ty → List Ty
  | [] => []
  | first :: rest => first.reread :: rereadAll rest

end

mutual

/-- The text of a type that sources can write spells this type, unless it has a class without type
arguments that has the name of another type. -/
theorem reread_eq_iff {ty : Ty} (h : ty.Writable) :
    ty.reread = ty ↔ ∀ name ∈ ownNames, plain name ∉ ty.components := by
  match ty, h with
  | .num, _ | .bool, _ | .none, _ | .typeVar, _ => simp [reread, components, plain]
  | .object name [], _ =>
    rw [reread, ← plain, typeOfName_eq_plain_iff]
    have hself (other : String) : plain other ∈ (plain name).components ↔ other = name := by
      simp [plain, components, componentsOf]
    simp only [hself]
    exact ⟨fun hnot other hother heq => hnot (heq ▸ hother), fun hall hname => hall name hname rfl⟩
  | .object name (first :: rest), h =>
    have hfirst := reread_eq_iff h.1
    have hrest := rereadAll_eq_iff h.2
    have hself (other : String) : plain other ∉ (object name (first :: rest)).components ↔
        plain other ∉ first.components ∧ plain other ∉ componentsOf rest := by
      simp [plain, components, componentsOf]
    simp only [reread, object.injEq, List.cons.injEq, true_and, hfirst, hrest, hself, forall_and]
  | .list element, h =>
    have helement : element.reread = element ↔ _ := reread_eq_iff h
    have hself (other : String) : plain other ∈ (list element).components ↔
        plain other ∈ element.components := by
      simp [plain, components]
    simp only [reread, list.injEq, helement, hself]

/-- So it is with type arguments. -/
theorem rereadAll_eq_iff {tys : List Ty} (h : AllWritable tys) :
    rereadAll tys = tys ↔ ∀ name ∈ ownNames, plain name ∉ componentsOf tys := by
  match tys, h with
  | [], _ => simp [rereadAll, componentsOf]
  | first :: rest, h =>
    have hfirst := reread_eq_iff h.1
    have hrest := rereadAll_eq_iff h.2
    simp only [rereadAll, List.cons.injEq, hfirst, hrest, componentsOf, List.mem_append, not_or,
      forall_and]

end

end Ty

/-! ## Words of types -/

mutual

/-- Words spell a type. -/
inductive SpellsTy : Ty → List String → Prop where
  | name {name : String} (named : IsName name) : SpellsTy (typeOfName name) [name]
  | none : SpellsTy .none ["None"]
  | list {element : Ty} {words : List String} (onElement : SpellsTy element words) :
      SpellsTy (.list element) ("[" :: (words ++ ["]"]))
  | object {name : String} {first : Ty} {more : List Ty} {words words' : List String}
      (named : IsName name) (onFirst : SpellsTy first words) (onMore : SpellsMoreTys more words') :
      SpellsTy (.object name (first :: more)) (name :: "[" :: (words ++ (words' ++ ["]"])))

/-- Words spell more types, each behind a comma. -/
inductive SpellsMoreTys : List Ty → List String → Prop where
  | nil : SpellsMoreTys [] []
  | cons {next : Ty} {more : List Ty} {words words' : List String} (onNext : SpellsTy next words)
      (onMore : SpellsMoreTys more words') : SpellsMoreTys (next :: more) ("," :: (words ++ words'))

end

/-! ## Texts of types -/

namespace Ty

/-- The texts of more types, each behind a comma and a blank. -/
def moreText (tys : List Ty) : Source := tys.flatMap fun ty => [',', ' '] ++ ty.text.toList

/-- The text of a class with arguments, character by character. -/
theorem toList_text_object {name : String} {first : Ty} {rest : List Ty} :
    (object name (first :: rest)).text.toList =
      name.toList ++ '[' :: (first.text.toList ++ (moreText rest ++ [']'])) := by
  have hrow (first : Ty) : (", ".intercalate (text first :: texts rest)).toList =
      first.text.toList ++ moreText rest := by
    induction rest generalizing first with
    | nil => simp [texts, moreText]
    | cons next rest ih =>
      rw [texts, String.intercalate_cons_cons, String.toList_append, ih, moreText, moreText,
        List.flatMap_cons, String.toList_append]
      simp
  simp [text, hrow]

/-- The text of a list, character by character. -/
theorem toList_text_list {element : Ty} :
    (list element).text.toList = '[' :: (element.text.toList ++ [']']) := by
  simp [text]

/-- The types that sources cannot write are written like classes. -/
theorem text_set (element : Ty) : (set element).text = (object "set" [element]).text := by
  simp [text, texts]

/-- A generator is written like an object of a class `generator`. -/
theorem text_generator (element : Ty) :
    (generator element).text = (object "generator" [element]).text := by
  simp [text, texts]

/-- A conditional type is written like an object of a class `either`. -/
theorem text_either (left right : Ty) :
    (either left right).text = (object "either" [left, right]).text := by
  simp [text, texts, String.intercalate_cons_cons, String.append_assoc]

end Ty

/-- In front of all that does not go on with a word, a text is made up of words. -/
def MadeUp (text : Source) (words : List String) : Prop :=
  ∀ more rest, Renders more rest → (∀ c ∈ rest.head?, Shape.continuesWord c = false) →
    Renders (words ++ more) (text ++ rest)

section Texts

variable {text text' : Source} {words words' more : List String} {rest : Source} {name : String}

/-- The characters of a name are those of a word. -/
theorem IsName.characters (h : IsName name) : ∃ first more, name.toList = first :: more ∧
    Shape.startsWord first = true ∧ ∀ c ∈ more, Shape.continuesWord c = true := by
  obtain ⟨⟨first, more, hchars, hfirst, hmore⟩, -⟩ := h
  exact ⟨first, more, hchars, by simpa [Shape.startsWord] using hfirst,
    by simpa [Shape.continuesWord] using hmore⟩

/-- A name is made up of one word. -/
theorem madeUp_name (named : IsName name) : MadeUp name.toList [name] := by
  intro more rest hmore hrest
  obtain ⟨first, behind, hchars, hfirst, hbehind⟩ := named.characters
  have hname := readable_name named
  exact .word hname (hname.readsBefore_word hchars hfirst hbehind hrest) hmore

/-- So is `None`. -/
theorem madeUp_none : MadeUp "None".toList ["None"] := by
  intro more rest hmore hrest
  have hnone : Readable "None" .noneWord := readable_reserved (by decide)
  have hbehind : ['o', 'n', 'e'].all Shape.continuesWord = true := by decide
  exact .word hnone (hnone.readsBefore_word rfl (by decide) (List.all_eq_true.mp hbehind) hrest)
    hmore

/-- Brackets and commas are read in front of anything. -/
theorem Renders.mark (word : String) (h : word ∈ ["[", "]", ","]) (hmore : Renders more rest) :
    Renders (word :: more) (word.toList ++ rest) := by
  simp only [List.mem_cons, List.not_mem_nil, or_false] at h
  rcases h with rfl | rfl | rfl
  · exact .word (readable_mark (by decide)) ⟨.mark .openBracket, rfl, rfl⟩ hmore
  · exact .word (readable_mark (by decide)) ⟨.mark .closeBracket, rfl, rfl⟩ hmore
  · exact .word (readable_mark (by decide)) ⟨.mark .comma, rfl, rfl⟩ hmore

/-- What a closing bracket stands behind may be followed by anything. -/
theorem MadeUp.closed (h : MadeUp text words) (hmore : Renders more rest) :
    Renders (words ++ "]" :: more) (text ++ ']' :: rest) := by
  refine h _ _ (.mark "]" (by decide) hmore) ?_
  rintro c ⟨rfl⟩
  decide

end Texts

/-! ## Types in words -/

namespace Ty

variable {name : String} {first : Ty} {rest : List Ty}

/-- The text of a class starts with its name. -/
theorem starts_object (named : IsName name) (arguments : List Ty) :
    ∃ first more, (object name arguments).text.toList = first :: more ∧
      Shape.isSpace first = false := by
  obtain ⟨first, behind, hchars, hfirst, -⟩ := named.characters
  have hblank : Shape.isSpace first = false := isSpace_eq_false (not_mem_of_startsWord hfirst)
  cases arguments with
  | nil => exact ⟨first, behind, hchars, hblank⟩
  | cons argument rest =>
    rw [toList_text_object, hchars, List.cons_append]
    exact ⟨first, _, rfl, hblank⟩

/-- The types that are no classes are written with names, too. -/
theorem isName_of_mem {name : String} (h : name ∈ ownNames ++ ["set", "generator", "either"]) :
    IsName name := by
  simp only [ownNames, List.cons_append, List.nil_append, List.mem_cons, List.not_mem_nil,
    or_false] at h
  rcases h with rfl | rfl | rfl | rfl | rfl | rfl <;> exact (isName_iff rfl).mpr (by decide)

/-- The text of a type starts with no blank. -/
theorem Named.starts {ty : Ty} (h : ty.Named) :
    ∃ first more, ty.text.toList = first :: more ∧ Shape.isSpace first = false := by
  cases ty with
  | num | bool | none | typeVar => exact ⟨_, _, rfl, rfl⟩
  | object name arguments => exact starts_object h.1 arguments
  | list element => exact ⟨_, _, toList_text_list, rfl⟩
  | set element =>
    rw [text_set]
    exact starts_object (isName_of_mem (by decide)) [element]
  | generator element =>
    rw [text_generator]
    exact starts_object (isName_of_mem (by decide)) [element]
  | either left right =>
    rw [text_either]
    exact starts_object (isName_of_mem (by decide)) [left, right]

/-- Behind a type, more types do not go on with a word. -/
theorem head_moreText (tys : List Ty) {rest : Source}
    (hrest : ∀ c ∈ rest.head?, Shape.continuesWord c = false) :
    ∀ c ∈ (moreText tys ++ rest).head?, Shape.continuesWord c = false := by
  cases tys with
  | nil => exact hrest
  | cons next tys =>
    rintro c ⟨rfl⟩
    decide

/-- The text of a type is made up of words that spell a type. -/
def InWords (ty : Ty) : Prop := ∃ words, SpellsTy ty.reread words ∧ MadeUp ty.text.toList words

/-- So are the texts of more types. -/
def AllInWords (tys : List Ty) : Prop :=
  ∃ words, SpellsMoreTys (rereadAll tys) words ∧ MadeUp (moreText tys) words

/-- A name alone is read as the type of this name. -/
theorem inWords_name (named : IsName name) :
    ∃ words, SpellsTy (typeOfName name) words ∧ MadeUp name.toList words :=
  ⟨[name], .name named, madeUp_name named⟩

/-- So are the names that the language has for types of its own. -/
theorem inWords_ownName (name : String) (h : name ∈ ownNames) :
    ∃ words, SpellsTy (typeOfName name) words ∧ MadeUp name.toList words :=
  inWords_name (isName_of_mem (List.mem_append_left _ h))

/-- A class with arguments is in words if the arguments are. -/
theorem inWords_object (named : IsName name) (hfirst : first.InWords) (hrest : AllInWords rest) :
    ∃ words, SpellsTy (.object name (first.reread :: rereadAll rest)) words ∧
      MadeUp (object name (first :: rest)).text.toList words := by
  obtain ⟨words, hspells, hwords⟩ := hfirst
  obtain ⟨words', hspells', hwords'⟩ := hrest
  refine ⟨_, .object named hspells hspells', ?_⟩
  intro more text hmore htext
  have hclosing : ∀ c ∈ (']' :: text).head?, Shape.continuesWord c = false := by
    rintro c ⟨rfl⟩
    decide
  have hinside := hwords _ _ (hwords'.closed hmore) (head_moreText rest hclosing)
  have hname := madeUp_name named _ _ (.mark "[" (by decide) hinside)
    (by rintro c ⟨rfl⟩; decide)
  rw [toList_text_object]
  simpa using hname

/-- A list is in words if the type of its elements is. -/
theorem inWords_list {element : Ty} (h : element.InWords) : (list element).InWords := by
  obtain ⟨words, hspells, hwords⟩ := h
  refine ⟨_, .list hspells, ?_⟩
  intro more text hmore htext
  have hinside : Renders ("[" :: (words ++ "]" :: more))
      ("[".toList ++ (element.text.toList ++ ']' :: text)) :=
    .mark "[" (by decide) (hwords.closed hmore)
  rw [toList_text_list]
  simpa using hinside

/-- No types are no words. -/
theorem allInWords_nil : AllInWords [] := ⟨[], .nil, fun _ _ hmore _ => hmore⟩

/-- Types in a row are in words if the first one is and the others are. -/
theorem allInWords_cons {next : Ty} {tys : List Ty} (hstarts : next.Named)
    (hnext : next.InWords) (htys : AllInWords tys) : AllInWords (next :: tys) := by
  obtain ⟨words, hspells, hwords⟩ := hnext
  obtain ⟨words', hspells', hwords'⟩ := htys
  refine ⟨_, .cons hspells hspells', ?_⟩
  intro more text hmore htext
  have hbehind := hwords _ _ (hwords' _ _ hmore htext) (head_moreText tys htext)
  have hblank : Renders (words ++ (words' ++ more))
      (' ' :: (next.text.toList ++ (moreText tys ++ text))) := by
    refine .blank ?_ hbehind
    obtain ⟨first, behind, hchars, hfirst⟩ := hstarts.starts
    rw [hchars]
    rintro c ⟨rfl⟩
    exact hfirst
  have hcomma : Renders ("," :: (words ++ (words' ++ more)))
      (",".toList ++ (' ' :: (next.text.toList ++ (moreText tys ++ text)))) :=
    .mark "," (by decide) hblank
  simpa [moreText] using hcomma

mutual

/-- The text of a type with names that can be written is made up of words that spell a type. -/
theorem Named.inWords {ty : Ty} (h : ty.Named) : ty.InWords := by
  match ty, h with
  | .num, _ => exact inWords_ownName "int" (by decide)
  | .bool, _ => exact inWords_ownName "bool" (by decide)
  | .typeVar, _ => exact inWords_ownName "TypeVar" (by decide)
  | .none, _ => exact ⟨["None"], .none, madeUp_none⟩
  | .object name [], h => exact inWords_name h.1
  | .object name (first :: rest), h => exact inWords_object h.1 h.2.1.inWords (allInWords h.2.2)
  | .list element, h =>
    have helement : element.Named := h
    exact inWords_list helement.inWords
  | .set element, h =>
    have helement : element.Named := h
    rw [InWords, text_set]
    exact inWords_object (isName_of_mem (by decide)) helement.inWords allInWords_nil
  | .generator element, h =>
    have helement : element.Named := h
    rw [InWords, text_generator]
    exact inWords_object (isName_of_mem (by decide)) helement.inWords allInWords_nil
  | .either left right, h =>
    rw [InWords, text_either]
    exact inWords_object (isName_of_mem (by decide)) h.1.inWords
      (allInWords_cons h.2 h.2.inWords allInWords_nil)

/-- Named types in a row are in words. -/
theorem allInWords {tys : List Ty} (h : AllNamed tys) : AllInWords tys := by
  match tys, h with
  | [], _ => exact allInWords_nil
  | next :: tys, h => exact allInWords_cons h.1 h.1.inWords (allInWords h.2)

end

end Ty
end Offside
