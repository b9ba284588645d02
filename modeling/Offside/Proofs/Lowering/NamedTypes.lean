import Offside.Proofs.Lowering.ExpressionWalks
import Offside.Proofs.Lowering.LowersWritable
import Offside.Proofs.Parsing.Names
import Offside.Proofs.Writing.TypeTexts

/-!
# Types that sources write

Wherever in the tree of a source the walk over a type succeeds, all classes in the type have names
that can be written, and no set, generator or either occurs in it: the walk takes the names from
leaves of the tree, and the leaves of a tree stand for words of its source.

Main definitions:

- `Lowering.Names`: the leaves of names below a node stand for names.

Main results:

- Theorem `ty_named`: the walk over a type gives a writable type with names that can be written.
- Theorem `names_of_parse`: the leaves of names in the tree of a source stand for names.
-/

namespace Offside

/-- The type of a name has this name or none. -/
theorem named_typeOfName {name : String} (h : IsName name) : (Lowering.typeOfName name).Named := by
  unfold Lowering.typeOfName
  split
  · trivial
  · split
    · trivial
    · split
      · trivial
      · exact ⟨h, trivial⟩

/-- The leaves of names below a node stand for names. -/
def Lowering.Names (l : Lowering) (node : SyntaxNode) : Prop :=
  ∀ leaf ∈ node.nodes, leaf.kind = .variableName → IsName (l.textOf leaf.span)

namespace Lowering

open Walk

variable {l : Lowering} {c d : Cursor} {node child : SyntaxNode}

namespace Names

theorem self (h : l.Names node) (hkind : node.kind = .variableName) :
    IsName (l.textOf node.span) :=
  h node node.mem_nodes_self hkind

theorem of_mem (h : l.Names node) (hmem : child ∈ node.children) : l.Names child :=
  fun leaf hleaf => h leaf (SyntaxNode.mem_nodes_of_mem hmem hleaf)

end Names

/-! ## Types -/

/-- A type, over a walk for the types inside. -/
theorem tyWith_named {inner : Walk Ty} (hcovers : l.Covers c.node) (hnames : l.Names c.node)
    (hinner : ∀ d, c.Under d → Terminates inner d fun ty last =>
      last = d ∧ ty.Named ∧ ty.Writable) :
    Terminates (l.tyWith inner) c fun ty last => last = c ∧ ty.Named ∧ ty.Writable := by
  apply kind_bind
  split
  · next hkind =>
    refine .bind_runs .text ?_
    exact .pure ⟨rfl, named_typeOfName (hnames.self hkind), writable_typeOfName _⟩
  · exact .pure ⟨rfl, trivial, trivial⟩
  · next hkind =>
    apply invalidType_bind
    intro invalid hinvalid
    apply enter_bind (hcovers.children_ne hkind rfl)
    rintro d ⟨index, hd⟩
    apply nextSibling_bind hd
    · intro e he
      apply (isToken_comesBack "]" e).bind
      intro isClosing
      split
      · exact leave_bind ⟨_, he⟩ (.throw hinvalid)
      · apply (hinner e ⟨_, he⟩).bind
        rintro element _ ⟨rfl, helement⟩
        apply (stepTo_under "]" ⟨_, he⟩).bind
        intro closed f hf
        apply leave_bind hf
        split
        · exact .pure ⟨rfl, helement⟩
        · exact .throw hinvalid
    · exact leave_bind ⟨_, hd⟩ (.throw hinvalid)
  · next hkind =>
    apply invalidType_bind
    intro invalid hinvalid
    apply enter_bind (hcovers.children_ne hkind rfl)
    intro d hd
    refine .bind_runs .text ?_
    have hopened : Terminates (andAlso (isAt .variableName) (l.stepTo "[")) d fun opened e =>
        c.Under e ∧ (opened = true → d.node.kind = .variableName) := by
      apply isAt_bind
      · intro hname
        exact (stepTo_under "[" hd).mono fun _ _ he => ⟨he, fun _ => hname⟩
      · exact .pure ⟨hd, fun hno => absurd hno Bool.false_ne_true⟩
    apply hopened.bind
    rintro opened e ⟨he, hname⟩
    split
    · next hyes =>
      have hnamed := (hnames.of_mem hd.mem).self (hname hyes)
      apply (listUntil_forall (P := fun ty => ty.Named ∧ ty.Writable) hcovers "]" he ?_).bind
      · rintro arguments f ⟨hf, harguments⟩
        refine leave_bind hf (.pure ⟨rfl, ⟨hnamed, ?_⟩, ?_⟩)
        · exact Ty.allNamed_iff.mpr fun ty hty => (harguments ty hty).1
        · exact Ty.allWritable_iff.mpr fun ty hty => (harguments ty hty).2
      · intro index f hf
        apply (hinner f ⟨index, hf⟩).bind
        rintro ty _ ⟨rfl, hty⟩
        exact .pure ⟨⟨index, Nat.le_refl index, hf⟩, List.forall_mem_singleton.mpr hty⟩
    · exact leave_bind he (.throw hinvalid)
  · apply invalidType_bind
    intro invalid hinvalid
    exact .throw hinvalid

theorem tyWithin_named {fuel : Nat} (hcovers : l.Covers c.node) (hnames : l.Names c.node)
    (hfuel : c.node.size ≤ fuel) :
    Terminates (l.tyWithin fuel) c fun ty last => last = c ∧ ty.Named ∧ ty.Writable := by
  induction fuel generalizing c with
  | zero =>
    have hpos := c.node.size_pos
    omega
  | succ fuel ih =>
    apply tyWith_named hcovers hnames
    intro d hd
    have hsize := SyntaxNode.size_lt_of_mem hd.mem
    exact ih (hcovers.of_mem hd.mem) (hnames.of_mem hd.mem) (by omega)

/-- The walk over a type gives a writable type with names that can be written. -/
theorem ty_named (hcovers : l.Covers c.node) (hnames : l.Names c.node) :
    Terminates l.ty c fun ty last => last = c ∧ ty.Named ∧ ty.Writable :=
  tyWithin_named hcovers hnames hcovers.size_le

/-! ## Trees of sources -/

/-- The leaves of names in the tree of a source stand for names. -/
theorem names_of_parse {source : Source} {tokens : List Token} {tree : SyntaxNode}
    (htokens : tokenize source = .ok tokens) (hparse : parse tokens source = .ok tree) :
    (ofTree source tree).Names tree := by
  intro leaf hleaf hkind
  obtain ⟨token, htoken, hidentifier, hspan, hname⟩ := parse_names htokens hparse hleaf hkind
  have hwritten : token.WrittenIn (ofTree source tree).source :=
    tokenize_written htokens token htoken
  rw [← hspan, textOf_written hwritten (by simp [hidentifier])]
  exact hname

/-- So do those below a node that is reached by descending. -/
theorem Names.descend {first : Cursor} {path : List Nat} (h : l.Names first.node)
    (hpath : first.descend? path = some c) : l.Names c.node :=
  Cursor.of_descend? (fun h hmem => h.of_mem hmem) h hpath

end Lowering
end Offside
