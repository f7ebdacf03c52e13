import ContextScan.Json.Codec
import ContextScan.Proofs.Restating
/-!
# Proofs.Storage — values and the forms they are stored in

Each type that is stored has a shape, and the shape says all there is to say about reading: a value is read from the
JSON values that say the same as its written form, and from no others (`Shape.Describes`).  For a record this follows
from the same law for its parts (`Shape.describes_record`), so one proof for each type suffices, however deep its
records go.

What a caller relies on are consequences of that one law, the same for every type (`Shape.Describes.stored`): what is
written is read back, what is read has one canonical form, and another spelling, in the value or anywhere in it, changes
nothing in what is read (`stored_in_shape`).
-/
namespace ContextScan.Json

open Codec

universe u

/-- **The canonical form of a JSON value**: what it is read as, written again. -/
def Codec.canonical? (α : Type u) [Codec α] (v : Value) : Option Value := (decode v : Option α).map encode

namespace Shape

/-- **A shape describes a type** if a value of the type is read exactly from what says the same as its written form. -/
def Describes (shape : Shape) (α : Type u) [Codec α] : Prop :=
  ∀ {v : Value} {a : α}, decode v = some a ↔ shape.Equivalent v (encode a)

/-! ## The shapes of the records -/

def options : Shape := record [("dollar_span", choice)]

def position : Shape := record [("index", word), ("byte_offset", word), ("line", word), ("column", word)]

def span : Shape := record [("start", position), ("end", position)]

def token : Shape := record [("kind", choice), ("text", text), ("span", span)]

variable {α : Type u} [Codec α] {shape : Shape} {v w : Value}

/-- **To describe a type**, a shape has to allow no change that reading notices, and lead every value that is read to
its written form. -/
theorem describes_of_respelled (hback : ∀ a : α, decode (encode a) = some a)
    (hstep : ∀ {v w}, shape.Respelled v w → (decode v : Option α) = decode w)
    (hform : ∀ {v} {a : α}, decode v = some a → shape.Equivalent v (encode a)) : shape.Describes α := by
  intro v a
  refine ⟨hform, fun h => ?_⟩
  rw [← hback]
  exact h.congr hstep

/-- **A choice of names** is described by the shape of choices, whatever the names are. -/
theorem describes_choice {name : α → String} {ofName? : String → Option α} (hencode : ∀ a, encode a = .string (name a))
    (hdecode : ∀ v, decode v = v.choice?.bind ofName?) (hname : ∀ {s a}, ofName? s = some a ↔ s = name a) :
    choice.Describes α := by
  refine describes_of_respelled (fun a => ?_) (fun h => ?_) fun {v a} h => ?_
  · rw [hdecode, hencode]
    exact hname.2 rfl
  · rw [hdecode, hdecode, h.choice?_eq]
  · rw [hdecode] at h
    obtain ⟨s, hs, ha⟩ := Option.bind_eq_some_iff.1 h
    rw [hencode, ← hname.1 ha]
    rcases Value.choice?_eq_some_iff.1 hs with rfl | rfl
    · exact .refl _
    · exact .of_respelled (.named s)

/-- **A record is described by the shapes of its parts**, if its written form has the written parts, and if it is read
from values that have parts which say the same. -/
theorem describes_record {parts : List (String × Shape)} (distinct : (parts.map Prod.fst).Nodup)
    (items : α → List Value) (hlen : ∀ a, (items a).length = parts.length)
    (hencode : ∀ a, encode a = .object ((parts.map Prod.fst).zip (items a)))
    (hdecode : ∀ {v} {a : α}, decode v = some a ↔ HasParts parts v (items a)) : (record parts).Describes α := by
  intro v a
  rw [hdecode, hencode, equivalent_object_iff distinct (hlen a)]

theorem describes_word : word.Describes UInt64 := by
  refine describes_of_respelled (fun n => ?_) (fun h => ?_) fun {v n} h => ?_
  · show (if _ then some (UInt64.ofNat (n.toNat : Int).toNat) else none) = some n
    rw [if_pos ⟨Int.natCast_nonneg _, Int.ofNat_lt.2 n.toNat_lt_size⟩, Int.toNat_natCast, UInt64.ofNat_toNat]
  · cases h with
    | reordered h => cases h <;> rfl
  · cases v with
    | integer i =>
      have hread : (if 0 ≤ i ∧ i < UInt64.size then some (UInt64.ofNat i.toNat) else none) = some n := h
      split at hread
      · rename_i hi
        have hword : (n.toNat : Int) = i := by
          rw [← Option.some.inj hread, UInt64.toNat_ofNat_of_lt' (by omega), Int.toNat_of_nonneg hi.1]
        rw [← hword]
        exact .refl _
      · cases hread
    | _ => cases h

theorem describes_text : text.Describes String := by
  refine describes_of_respelled (fun s => rfl) (fun h => ?_) fun {v s} h => ?_
  · cases h with
    | reordered h => cases h <;> rfl
  · cases v with
    | string s' =>
      cases h
      exact .refl _
    | _ => cases h

theorem describes_kind : choice.Describes Kind :=
  describes_choice (fun _ => rfl) (fun _ => rfl) Kind.ofName?_eq_some_iff

theorem describes_dollarSpan : choice.Describes DollarSpan :=
  describes_choice (fun _ => rfl) (fun _ => rfl) DollarSpan.ofName?_eq_some_iff

theorem describes_options : options.Describes Options := by
  refine describes_record (by decide) (fun o => [encode o.dollarSpan]) (fun _ => rfl) (fun _ => rfl) fun {v o} => ?_
  delta instCodecOptions
  simp only [HasParts, List.map_cons, List.map_nil]
  constructor
  · intro h
    split at h
    · rename_i hfields
      obtain ⟨_, hdollarSpan, ⟨⟩⟩ := Option.bind_eq_some_iff.1 h
      exact ⟨_, hfields, .cons (describes_dollarSpan.1 hdollarSpan) .nil⟩
    · cases h
  · rintro ⟨_, hfields, _ | ⟨hdollarSpan, _ | _⟩⟩
    simp only [hfields, describes_dollarSpan.2 hdollarSpan, Option.bind_eq_bind, Option.bind_some]
    rfl

theorem describes_position : position.Describes Position := by
  refine describes_record (by decide)
    (fun p => [encode p.index, encode p.byteOffset, encode p.line, encode p.column]) (fun _ => rfl) (fun _ => rfl)
    fun {v p} => ?_
  delta instCodecPosition
  simp only [HasParts, List.map_cons, List.map_nil]
  constructor
  · intro h
    split at h
    · rename_i hfields
      simp only [Option.bind_eq_bind, Option.bind_eq_some_iff] at h
      obtain ⟨_, hindex, _, hbyteOffset, _, hline, _, hcolumn, ⟨⟩⟩ := h
      exact ⟨_, hfields, .cons (describes_word.1 hindex) (.cons (describes_word.1 hbyteOffset)
        (.cons (describes_word.1 hline) (.cons (describes_word.1 hcolumn) .nil)))⟩
    · cases h
  · rintro ⟨_, hfields, _ | ⟨hindex, _ | ⟨hbyteOffset, _ | ⟨hline, _ | ⟨hcolumn, _ | _⟩⟩⟩⟩⟩
    simp only [hfields, describes_word.2 hindex, describes_word.2 hbyteOffset, describes_word.2 hline,
      describes_word.2 hcolumn, Option.bind_eq_bind, Option.bind_some]
    rfl

theorem describes_span : span.Describes Span := by
  refine describes_record (by decide) (fun s => [encode s.start, encode s.stop]) (fun _ => rfl) (fun _ => rfl)
    fun {v s} => ?_
  delta instCodecSpan
  simp only [HasParts, List.map_cons, List.map_nil]
  constructor
  · intro h
    split at h
    · rename_i hfields
      simp only [Option.bind_eq_bind, Option.bind_eq_some_iff] at h
      obtain ⟨_, hstart, _, hstop, ⟨⟩⟩ := h
      exact ⟨_, hfields, .cons (describes_position.1 hstart) (.cons (describes_position.1 hstop) .nil)⟩
    · cases h
  · rintro ⟨_, hfields, _ | ⟨hstart, _ | ⟨hstop, _ | _⟩⟩⟩
    simp only [hfields, describes_position.2 hstart, describes_position.2 hstop, Option.bind_eq_bind, Option.bind_some]
    rfl

theorem describes_token : token.Describes Token := by
  refine describes_record (by decide) (fun t => [encode t.kind, encode t.text, encode t.span]) (fun _ => rfl)
    (fun _ => rfl) fun {v t} => ?_
  delta instCodecToken
  simp only [HasParts, List.map_cons, List.map_nil]
  constructor
  · intro h
    split at h
    · rename_i hfields
      simp only [Option.bind_eq_bind, Option.bind_eq_some_iff] at h
      obtain ⟨_, hkind, _, htext, _, hspan, ⟨⟩⟩ := h
      exact ⟨_, hfields, .cons (describes_kind.1 hkind) (.cons (describes_text.1 htext)
        (.cons (describes_span.1 hspan) .nil))⟩
    · cases h
  · rintro ⟨_, hfields, _ | ⟨hkind, _ | ⟨htext, _ | ⟨hspan, _ | _⟩⟩⟩⟩
    simp only [hfields, describes_kind.2 hkind, describes_text.2 htext, describes_span.2 hspan, Option.bind_eq_bind,
      Option.bind_some]
    rfl

end Shape

/-- **What a shape promises of a type that is stored in it.** -/
structure Stored (shape : Shape) (α : Type u) [Codec α] : Prop where
  /-- A value is read back from its written form. -/
  decode_encode : ∀ a : α, decode (encode a) = some a
  /-- What is read has a canonical form; it is read as the same value, and is its own canonical form. -/
  exists_canonical : ∀ {v : Value} {a : α}, decode v = some a →
    ∃ c, canonical? α v = some c ∧ decode c = some a ∧ canonical? α c = some c
  /-- Two JSON values have the same canonical form if and only if they are read alike. -/
  canonical?_eq_iff : ∀ {v w : Value}, canonical? α v = canonical? α w ↔ (decode v : Option α) = decode w
  /-- A change in how a value is written, at whatever depth, changes neither whether nor what is read. -/
  decode_congr : ∀ {v w : Value}, shape.Equivalent v w → (decode v : Option α) = decode w
  /-- And no other values are read as the same: these changes lead from each of them to the written form. -/
  decode_eq_some_iff : ∀ {v : Value} {a : α}, decode v = some a ↔ shape.Equivalent v (encode a)

namespace Shape.Describes

variable {α : Type u} [Codec α] {shape : Shape} {v w : Value}

theorem decode_encode (h : shape.Describes α) (a : α) : decode (encode a) = some a := h.2 (.refl _)

theorem encode_inj (h : shape.Describes α) {a b : α} (hab : (encode a : Value) = encode b) : a = b := by
  have hread := h.decode_encode a
  rw [hab, h.decode_encode b] at hread
  exact (Option.some.inj hread).symm

theorem decode_congr (h : shape.Describes α) (hvw : shape.Equivalent v w) : (decode v : Option α) = decode w := by
  refine Option.ext fun a => ?_
  rw [h, h]
  exact ⟨hvw.symm.trans, hvw.trans⟩

/-- **A type that a shape describes is stored in it.** -/
theorem stored (h : shape.Describes α) : Stored shape α where
  decode_encode := h.decode_encode
  exists_canonical {v a} hv := by
    have hback := h.decode_encode a
    refine ⟨encode a, ?_, hback, ?_⟩
    · rw [canonical?, hv, Option.map_some]
    · rw [canonical?, hback, Option.map_some]
  canonical?_eq_iff := (Option.map_injective fun _ _ => h.encode_inj).eq_iff
  decode_congr := h.decode_congr
  decode_eq_some_iff := h

end Shape.Describes

/-- **Values are stored in JSON in the shapes of their types.**

Kinds, extents, options, positions, spans and tokens are read back from what they are written as.  Every JSON value that
is read as one of them, in whatever mixture of spellings, has a canonical form, which is read as the same and written as
itself, and two such values have one canonical form exactly if they denote the same.  Members of objects may change
places at any depth, other members may stand among the parts of a record, and a list of the parts may stand for the
object of them, all without a change in what is read or refused.  With the two spellings of a choice, these are all the
ways to write a value. -/
theorem stored_in_shape :
    Stored .choice Kind ∧ Stored .choice DollarSpan ∧ Stored .options Options ∧ Stored .position Position ∧
      Stored .span Span ∧ Stored .token Token :=
  ⟨Shape.describes_kind.stored, Shape.describes_dollarSpan.stored, Shape.describes_options.stored,
    Shape.describes_position.stored, Shape.describes_span.stored, Shape.describes_token.stored⟩

/-- A list with a choice spelled as an object, and a span with its parts in the other order and one more member. -/
theorem stored_in_shape_mixed_spellings :
    Shape.token.Equivalent
      (.array [.object [("Comma", .null)], .string ",",
        .object [("end", .array [.integer 1, .integer 1, .integer 1, .integer 2]), ("file", .null),
          ("start", encode Position.start)]])
      (encode (⟨.comma, ",", ⟨.start, ⟨1, 1, 1, 2⟩⟩⟩ : Token)) := by
  obtain ⟨-, -, -, -, -, htoken⟩ := stored_in_shape
  exact htoken.decode_eq_some_iff.1 rfl

end ContextScan.Json
