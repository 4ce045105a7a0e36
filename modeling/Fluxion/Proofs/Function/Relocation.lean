import Fluxion.Proofs.Function.Bodies
import Fluxion.Proofs.Notation.Regrouping
import Fluxion.Report
/- Other places for the parts of a definition. A map of spans is applied to every part of a term, to
   the nodes of a tree, of a draft and of an arena, and to the places of a fault (`relocate`).
   Binding names and storing a body hand places on and look at none, so what a definition defines
   has the places of the definition, wherever these are moved (`Function.ofDefinition_relocate`);
   slots and links are the same.

   Only the reader makes places out of places, where an operator reaches from one operand to the
   other. A map that agrees with this respects spans (`Span.Respects`). There are two that matter:
   the shift by a number of bytes, for a source that stands behind other text, and the map that
   forgets places, with which definitions can be compared that were read from different sources. -/
namespace Fluxion

variable (place : Span → Span)

/-- What reaches from one place to another still does when both are moved. -/
def Span.Respects (place : Span → Span) : Prop :=
  ∀ first last : Span, place (first.through last) = (place first).through (place last)

/-- The places of a text that stands behind others, by the bytes in front of it. -/
def Span.shift (offset : Nat) (span : Span) : Span := ⟨span.start + offset, span.stop + offset⟩

theorem Span.respects_shift (offset : Nat) : Span.Respects (shift offset) := fun _ _ => rfl

theorem Span.respects_nowhere : Span.Respects fun _ => nowhere := fun _ _ => rfl

/-- The fault at other places. -/
def Located.relocate {φ : Type} (e : Located φ) : Located φ := { e with spans := e.spans.map place }

theorem Located.relocate_id {φ : Type} (e : Located φ) : e.relocate id = e := by
  rw [relocate, List.map_id]

/-! ## Terms -/

namespace Term

/-- The term with its parts at other places. -/
def relocate : Term → Term
  | integer n span => integer n (place span)
  | fraction x span => fraction x (place span)
  | name text span => name text (place span)
  | negate operand span => negate operand.relocate (place span)
  | call f argument span => call f argument.relocate (place span)
  | binary op left right span => binary op left.relocate right.relocate (place span)

theorem span_relocate (t : Term) : (t.relocate place).span = place t.span := by
  cases t <;> rfl

theorem relocate_id (t : Term) : t.relocate id = t := by
  induction t with
  | integer | fraction | name => rfl
  | negate operand span ih | call f operand span ih => rw [relocate, ih, id]
  | binary op left right span ihLeft ihRight => rw [relocate, ihLeft, ihRight, id]

variable {place}

theorem relocate_join (respects : Span.Respects place) (op : BinaryOp) (left right : Term) :
    (join op left right).relocate place = join op (left.relocate place) (right.relocate place) := by
  rw [join, relocate, respects, join, span_relocate, span_relocate]

end Term

/-- The definition with the parts of its body at other places. -/
def Definition.relocate (d : Definition) : Definition := { d with body := d.body.relocate place }

theorem Definition.relocate_id (d : Definition) : d.relocate id = d := by
  rw [relocate, Term.relocate_id]

/-! ## Trees -/

/-- The tree with its nodes at other places. -/
def Tree.relocate : Tree → Tree
  | absent => absent
  | node kind span left right => node kind (place span) left.relocate right.relocate

theorem Tree.relocate_nowhere (t : Tree) : t.relocate (fun _ => .nowhere) = t.bare := by
  induction t with
  | absent => rfl
  | node kind span left right ihLeft ihRight => rw [relocate, ihLeft, ihRight, bare]

/-- Names are bound wherever they stand. -/
theorem Term.resolve_relocate (t : Term) (variableName : String) (table : ParameterTable) :
    (t.relocate place).resolve variableName table =
      ((t.resolve variableName table).1.relocate place, (t.resolve variableName table).2) := by
  induction t generalizing table with
  | integer | fraction => rfl
  | name text span =>
    simp only [relocate, resolve]
    split <;> rfl
  | negate operand span ih | call f argument span ih =>
    simp only [relocate, resolve, ih]
    rfl
  | binary op left right span ihLeft ihRight =>
    simp only [relocate, resolve, ihLeft, ihRight]
    rfl

/-- The draft with its nodes at other places. -/
def Draft.relocate : Draft → Draft
  | absent => absent
  | node kind span order left right => node kind (place span) order left.relocate right.relocate

theorem Draft.copy_relocate (t : Tree) : copy (t.relocate place) = (copy t).relocate place := by
  induction t with
  | absent => rfl
  | node kind span left right ihLeft ihRight => rw [Tree.relocate, copy, ihLeft, ihRight, copy, relocate]

/-! ## Arenas -/

namespace Arena

/-- The node at another place. -/
def Node.relocate (node : Node) : Node := { node with span := place node.span }

/-- The arena with all its nodes at other places. -/
def relocate (a : Arena) : Arena := { a with nodes := a.nodes.map (·.relocate place) }

theorem alloc_relocate (a : Arena) (node : Node) :
    (a.relocate place).alloc (node.relocate place) =
      ((a.alloc node).1, (a.alloc node).2.relocate place) := by
  obtain ⟨nodes, free, root⟩ := a
  cases free with
  | nil => simp [alloc, relocate]
  | cons h free => simp [alloc, relocate]

/-- A change that looks at no place and moves none is the same at other places. -/
theorem modify_relocate (a : Arena) (h : Handle) (change : Node → Node)
    (blind : ∀ node, change (node.relocate place) = (change node).relocate place) :
    (a.relocate place).modify h change = (a.modify h change).relocate place := by
  have nodes : (a.nodes.map (·.relocate place)).modify h change =
      (a.nodes.modify h change).map (·.relocate place) := by
    apply Array.ext_getElem?
    intro i
    rw [Array.getElem?_modify, Array.getElem?_map, Array.getElem?_map, Array.getElem?_modify]
    split
    · cases a.nodes[i]? with
      | none => rfl
      | some node => exact congrArg some (blind node)
    · rfl
  rw [modify, relocate, nodes]
  rfl

theorem setParent_relocate (a : Arena) (child parent : Option Handle) :
    (a.relocate place).setParent child parent = (a.setParent child parent).relocate place := by
  cases child with
  | none => rfl
  | some child => exact a.modify_relocate place child _ fun _ => rfl

theorem link_relocate (a : Arena) (h : Handle) (left right : Option Handle) :
    (a.relocate place).link h left right = (a.link h left right).relocate place := by
  have linked := a.modify_relocate place h (fun node => { node with left, right }) fun _ => rfl
  simp only [link, linked, setParent_relocate]

theorem setRoot_relocate (a : Arena) (h : Handle) :
    (a.relocate place).setRoot h = (a.setRoot h).relocate place := by
  rw [setRoot, setParent_relocate]
  rfl

theorem place_relocate (a : Arena) (kind : Kind) (span : Span) (left right : Option Handle) :
    (a.relocate place).place kind (place span) left right =
      ((a.place kind span left right).1, (a.place kind span left right).2.relocate place) := by
  have stored := a.alloc_relocate place { kind, span }
  rw [Node.relocate] at stored
  simp only [Arena.place, stored, link_relocate]

/-- A draft takes the same slots wherever its nodes come from. -/
theorem build_relocate (a : Arena) (draft : Draft) :
    (a.relocate place).build (draft.relocate place) =
      ((a.build draft).1, (a.build draft).2.relocate place) := by
  induction draft generalizing a with
  | absent => rfl
  | node kind span order left right ihLeft ihRight =>
    cases order with
    | leftFirst => simp only [Draft.relocate, build, ihLeft, ihRight, place_relocate]
    | rightFirst => simp only [Draft.relocate, build, ihLeft, ihRight, place_relocate]

theorem ofDraft_relocate (draft : Draft) :
    ofDraft (draft.relocate place) = (ofDraft draft).relocate place := by
  have built := build_relocate place {} draft
  have empty : ({} : Arena).relocate place = {} := by simp [relocate]
  rw [empty] at built
  rw [ofDraft, ofDraft, built]
  obtain ⟨root, a⟩ := build {} draft
  cases root with
  | none => rfl
  | some h => exact setRoot_relocate place a h

end Arena

/-! ## Functions -/

/-- The function with the nodes of its body at other places. -/
def Function.relocate (f : Function) : Function := { f with body := f.body.relocate place }

theorem Function.ofDefinition_relocate (d : Definition) :
    ofDefinition (d.relocate place) = (ofDefinition d).relocate place := by
  simp only [ofDefinition, Definition.relocate, Term.resolve_relocate, Draft.copy_relocate,
    Arena.ofDraft_relocate]
  rfl

end Fluxion
