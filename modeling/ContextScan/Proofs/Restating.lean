import ContextScan.Json.Value
import Mathlib.Data.List.Nodup
import Mathlib.Data.Option.Basic
import Mathlib.Logic.Relation
/-!
# Proofs.Restating — JSON values that say the same

One value can be written in JSON in many ways, and the shape of its type tells which.  A word and a text have one
spelling and a choice has two.  A record may be the list of its parts or an object that has them all, in any order and
among other members, and its parts again have the spellings of their shapes.  `Shape.Respelled` is one such change, in
the value itself or in a part of it at any depth, and `Shape.Equivalent` any number of them.

What a record's parts are and which name a choice has is all that reading asks of a value.  No change alters the name
(`Shape.Respelled.choice?_eq`), and a change leaves the parts as they are or changes one of them as its shape allows
(`Shape.Respelled.rel_fields?`), so the values that say the same as an object of all the parts are those that have these
parts, up to what the parts can be changed to (`Shape.equivalent_object_iff`).
-/
namespace ContextScan.Json

universe u

/-! ## Members, parts and names -/

namespace Value

variable {v : Value} {items : List Value} {members members' before after : List (String × Value)} {name name' : String}

/-- In an object whose names are distinct, a name has the value that it stands with. -/
theorem lookup_eq_some_iff (distinct : (members.map Prod.fst).Nodup) :
    members.lookup name = some v ↔ (name, v) ∈ members := by
  induction members with
  | nil => simp
  | cons member members ih =>
    obtain ⟨name', v'⟩ := member
    rw [List.map_cons, List.nodup_cons] at distinct
    rw [List.lookup_cons, List.mem_cons, Prod.mk.injEq]
    by_cases hname : name = name'
    · subst hname
      have hfresh : (name, v) ∉ members := fun h => distinct.1 (List.mem_map.2 ⟨(name, v), h, rfl⟩)
      simp [hfresh, eq_comm]
    · rw [beq_false_of_ne hname]
      simp [hname, ih distinct.2]

theorem lookup_eq_of_perm (distinct : (members.map Prod.fst).Nodup) (order : members.Perm members') :
    members.lookup name = members'.lookup name := by
  refine Option.ext fun v => ?_
  rw [lookup_eq_some_iff distinct, order.mem_iff, lookup_eq_some_iff ((order.map _).nodup_iff.1 distinct)]

theorem lookup_added (h : name' ≠ name) :
    (before ++ after).lookup name' = (before ++ (name, v) :: after).lookup name' := by
  rw [List.lookup_append, List.lookup_append, List.lookup_cons, beq_false_of_ne h]

theorem lookup_zip : ∀ {names : List String} {items : List Value}, names.Nodup → items.length = names.length →
    names.map ((names.zip items).lookup ·) = items.map some
  | [], [], _, _ => rfl
  | name :: names, item :: items, distinct, hlen => by
    rw [List.nodup_cons] at distinct
    rw [List.zip_cons_cons, List.map_cons, List.map_cons, List.lookup_cons_self,
      ← lookup_zip distinct.2 (Nat.succ.inj hlen)]
    refine congrArg _ (List.map_congr_left fun name' hname' => ?_)
    rw [List.lookup_cons, beq_false_of_ne (ne_of_mem_of_not_mem hname' distinct.1)]

theorem fields?_object_eq_some_iff {names : List String} :
    fields? names (object members) = some items ↔ names.map (members.lookup ·) = items.map some := by
  simp only [fields?]
  induction names generalizing items with
  | nil => cases items <;> simp
  | cons name names ih => cases items <;> simp [List.mapM_cons, Option.bind_eq_some_iff, ih]

theorem choice?_eq_some_iff : v.choice? = some name ↔ v = string name ∨ v = object [(name, null)] := by
  constructor
  · intro h
    unfold choice? at h
    split at h
    · cases h
      exact .inl rfl
    · cases h
      exact .inr rfl
    · cases h
  · rintro (rfl | rfl) <;> rfl

/-- An object has no choice's name if one of its members is not null. -/
theorem choice?_object_eq_none (h : v ≠ null) : (object (before ++ (name, v) :: after)).choice? = none := by
  refine Option.eq_none_iff_forall_ne_some.2 fun name' hname => ?_
  rcases choice?_eq_some_iff.1 hname with hname | hname
  · cases hname
  · rcases List.append_eq_singleton_iff.1 (object.inj hname) with ⟨-, hv⟩ | ⟨-, hv⟩
    · cases hv
      exact h rfl
    · cases hv

end Value

/-! ## Shapes and changes -/

/-- **How the values of a type are laid out in JSON.** -/
inductive Shape where
  | word
  | text
  | choice
  | record (parts : List (String × Shape))

/-- **One object in a value written in another order**, at any depth.  The names in an object are distinct. -/
inductive Value.Reordered : Value → Value → Prop
  | here {members members' : List (String × Value)} (distinct : (members.map Prod.fst).Nodup)
      (order : members.Perm members') : Reordered (.object members) (.object members')
  | member (before : List (String × Value)) (name : String) {v w : Value} (after : List (String × Value)) :
      Reordered v w → Reordered (.object (before ++ (name, v) :: after)) (.object (before ++ (name, w) :: after))
  | item (before : List Value) {v w : Value} (after : List Value) :
      Reordered v w → Reordered (.array (before ++ v :: after)) (.array (before ++ w :: after))

namespace Shape

/-- **One change in how a value is written.** -/
inductive Respelled : Shape → Value → Value → Prop
  | reordered {shape : Shape} {v w : Value} : v.Reordered w → Respelled shape v w
  /-- The name of a choice, for the object of the name and a null. -/
  | named (name : String) : Respelled choice (.object [(name, .null)]) (.string name)
  /-- One more member, which is no part of the record. -/
  | added {parts : List (String × Shape)} (before : List (String × Value)) {name : String} (v : Value)
      (after : List (String × Value)) (other : name ∉ parts.map Prod.fst) :
      Respelled (record parts) (.object (before ++ after)) (.object (before ++ (name, v) :: after))
  /-- The list of the parts in their order, for an object that has them all. -/
  | listed {parts : List (String × Shape)} {members : List (String × Value)} {items : List Value}
      (all : parts.map (fun part => members.lookup part.1) = items.map some) :
      Respelled (record parts) (.object members) (.array items)
  /-- A change in a part, where the record is an object. -/
  | member {parts : List (String × Shape)} {shape : Shape} (before : List (String × Value)) {name : String}
      {v w : Value} (after : List (String × Value)) (part : (name, shape) ∈ parts) : Respelled shape v w →
      Respelled (record parts) (.object (before ++ (name, v) :: after)) (.object (before ++ (name, w) :: after))
  /-- A change in a part, where the record is a list. -/
  | item {parts : List (String × Shape)} {shape : Shape} (before : List Value) {name : String} {v w : Value}
      (after : List Value) (part : parts[before.length]? = some (name, shape)) : Respelled shape v w →
      Respelled (record parts) (.array (before ++ v :: after)) (.array (before ++ w :: after))

/-- **Two values that say the same**: any number of changes lead from one to the other, each made or undone. -/
def Equivalent (shape : Shape) : Value → Value → Prop := Relation.EqvGen shape.Respelled

/-- **Parts that say the same**, one by one. -/
inductive EquivalentParts : List (String × Shape) → List Value → List Value → Prop
  | nil : EquivalentParts [] [] []
  | cons {parts : List (String × Shape)} {name : String} {shape : Shape} {v w : Value} {vs ws : List Value} :
      shape.Equivalent v w → EquivalentParts parts vs ws → EquivalentParts ((name, shape) :: parts) (v :: vs) (w :: ws)

/-- **A value has the given parts**, up to what says the same as each of them. -/
def HasParts (parts : List (String × Shape)) (v : Value) (ws : List Value) : Prop :=
  ∃ vs, v.fields? (parts.map Prod.fst) = some vs ∧ EquivalentParts parts vs ws

variable {shape : Shape} {parts : List (String × Shape)} {u v w : Value} {us vs ws items : List Value}
  {members members' before after : List (String × Value)} {name : String}

namespace Equivalent

theorem refl (v : Value) : shape.Equivalent v v := Relation.EqvGen.refl v

theorem symm (h : shape.Equivalent v w) : shape.Equivalent w v := Relation.EqvGen.symm v w h

theorem trans (h : shape.Equivalent u v) (h' : shape.Equivalent v w) : shape.Equivalent u w :=
  Relation.EqvGen.trans u v w h h'

theorem of_respelled (h : shape.Respelled v w) : shape.Equivalent v w := Relation.EqvGen.rel v w h

/-- **What no change alters is the same for values that say the same.** -/
theorem congr {α : Sort u} {f : Value → α} (hf : ∀ {v w}, shape.Respelled v w → f v = f w) (h : shape.Equivalent v w) :
    f v = f w := by
  induction h with
  | rel v w h => exact hf h
  | refl v => rfl
  | symm v w _ ih => exact ih.symm
  | trans u v w _ _ ih ih' => exact ih.trans ih'

/-- A change in one item of a list, among others that stay. -/
theorem item (before after : List Value) (part : parts[before.length]? = some (name, shape))
    (h : shape.Equivalent v w) :
    (record parts).Equivalent (.array (before ++ v :: after)) (.array (before ++ w :: after)) := by
  induction h with
  | rel v w h => exact of_respelled (.item before after part h)
  | refl v => exact refl _
  | symm v w _ ih => exact ih.symm
  | trans u v w _ _ ih ih' => exact ih.trans ih'

end Equivalent

namespace EquivalentParts

theorem refl : ∀ {parts : List (String × Shape)} {items : List Value}, items.length = parts.length →
    EquivalentParts parts items items
  | [], [], _ => .nil
  | _ :: _, _ :: _, h => .cons (.refl _) (refl (Nat.succ.inj h))

/-- Lists that differ in one item. -/
theorem item {partsAfter : List (String × Shape)} (h : shape.Equivalent v w) :
    ∀ {partsBefore : List (String × Shape)} {before after : List Value}, before.length = partsBefore.length →
      after.length = partsAfter.length →
      EquivalentParts (partsBefore ++ (name, shape) :: partsAfter) (before ++ v :: after) (before ++ w :: after)
  | [], [], _, _, hafter => .cons h (refl hafter)
  | _ :: _, _ :: _, _, hbefore, hafter => .cons (.refl _) (item h (Nat.succ.inj hbefore) hafter)

theorem symm (h : EquivalentParts parts vs ws) : EquivalentParts parts ws vs := by
  induction h with
  | nil => exact .nil
  | cons hv _ ih => exact .cons hv.symm ih

theorem trans (h : EquivalentParts parts us vs) (h' : EquivalentParts parts vs ws) : EquivalentParts parts us ws := by
  induction h generalizing ws with
  | nil => exact h'
  | cons hv _ ih =>
    cases h' with
    | cons hw hws => exact .cons (hv.trans hw) (ih hws)

theorem trans_iff (h : EquivalentParts parts us vs) : EquivalentParts parts us ws ↔ EquivalentParts parts vs ws :=
  ⟨h.symm.trans, h.trans⟩

/-- Parts are changed from the left to the right: those before are changed already. -/
theorem equivalent_after (h : EquivalentParts parts vs ws) : ∀ (partsBefore : List (String × Shape))
    (before : List Value), before.length = partsBefore.length →
    (record (partsBefore ++ parts)).Equivalent (.array (before ++ vs)) (.array (before ++ ws)) := by
  induction h with
  | nil => exact fun _ _ _ => .refl _
  | @cons parts name shape v w vs ws hv _ ih =>
    intro partsBefore before hbefore
    have hrest := ih (partsBefore ++ [(name, shape)]) (before ++ [w]) (by simp [hbefore])
    rw [List.append_assoc, List.append_assoc, List.append_assoc] at hrest
    have hpart : (partsBefore ++ (name, shape) :: parts)[before.length]? = some (name, shape) := by simp [hbefore]
    exact (Equivalent.item before vs hpart hv).trans hrest

/-- **Lists of equivalent parts say the same.** -/
theorem equivalent (h : EquivalentParts parts vs ws) : (record parts).Equivalent (.array vs) (.array ws) :=
  h.equivalent_after [] [] rfl

end EquivalentParts

/-! ## What a change does to the parts of a record -/

theorem Equivalent.rel_of_eq : ∀ {o o' : Option Value}, o = o' → Option.Rel shape.Equivalent o o'
  | none, _, rfl => .none
  | some v, _, rfl => .some (.refl v)

/-- A name in an object of which one member is changed. -/
theorem rel_lookup_member {name' : String} (h : name' = name → shape.Equivalent v w) :
    Option.Rel shape.Equivalent ((before ++ (name, v) :: after).lookup name')
      ((before ++ (name, w) :: after).lookup name') := by
  by_cases hname : name' = name
  · rw [List.lookup_append, List.lookup_append, List.lookup_cons, List.lookup_cons, beq_iff_eq.2 hname]
    cases before.lookup name' with
    | none => exact .some (h hname)
    | some u => exact .some (.refl u)
  · exact Equivalent.rel_of_eq ((Value.lookup_added hname).symm.trans (Value.lookup_added hname))

/-- **Objects with equivalent members have equivalent parts.** -/
theorem rel_fields?_object : ∀ {parts : List (String × Shape)},
    (∀ part ∈ parts, Option.Rel part.2.Equivalent (members.lookup part.1) (members'.lookup part.1)) →
    Option.Rel (EquivalentParts parts) (Value.fields? (parts.map Prod.fst) (.object members))
      (Value.fields? (parts.map Prod.fst) (.object members'))
  | [], _ => .some .nil
  | part :: parts, h => by
    have hpart := h part List.mem_cons_self
    have hparts := rel_fields?_object fun part hmem => h part (List.mem_cons_of_mem _ hmem)
    simp only [Value.fields?, List.map_cons, List.mapM_cons] at hparts ⊢
    generalize members.lookup part.1 = o at hpart
    generalize members'.lookup part.1 = o' at hpart
    generalize (parts.map Prod.fst).mapM (members.lookup ·) = os at hparts
    generalize (parts.map Prod.fst).mapM (members'.lookup ·) = os' at hparts
    cases hpart with
    | none => exact .none
    | some hv =>
      cases hparts with
      | none => exact .none
      | some hvs => exact .some (.cons hv hvs)

/-- **Lists that differ in one item have equivalent parts**, if the shape of that part allows the difference. -/
theorem rel_fields?_item {before after : List Value} (h : ∀ part ∈ parts[before.length]?, part.2.Equivalent v w) :
    Option.Rel (EquivalentParts parts) (Value.fields? (parts.map Prod.fst) (.array (before ++ v :: after)))
      (Value.fields? (parts.map Prod.fst) (.array (before ++ w :: after))) := by
  simp only [Value.fields?, List.length_map, List.length_append, List.length_cons]
  split
  · rename_i hlen
    have hlt : before.length < parts.length := by omega
    have hpart := h _ (List.getElem?_eq_getElem hlt)
    refine .some ?_
    rw [← List.take_append_drop before.length parts, List.drop_eq_getElem_cons hlt]
    refine .item hpart ?_ ?_
    · rw [List.length_take, Nat.min_eq_left (Nat.le_of_lt hlt)]
    · rw [List.length_drop]
      omega
  · exact .none

/-- **Values of which one is the other respelled have equivalent parts**, or neither of them has all its parts. -/
theorem Respelled.rel_fields? (distinct : (parts.map Prod.fst).Nodup) (h : (record parts).Respelled v w) :
    Option.Rel (EquivalentParts parts) (v.fields? (parts.map Prod.fst)) (w.fields? (parts.map Prod.fst)) := by
  cases h with
  | reordered h =>
    cases h with
    | here hdistinct order =>
      exact rel_fields?_object fun part _ => Equivalent.rel_of_eq (Value.lookup_eq_of_perm hdistinct order)
    | member before name after h =>
      exact rel_fields?_object fun part _ => rel_lookup_member fun _ => .of_respelled (.reordered h)
    | item before after h => exact rel_fields?_item fun part _ => .of_respelled (.reordered h)
  | added before u after other =>
    refine rel_fields?_object fun part hpart => Equivalent.rel_of_eq (Value.lookup_added ?_)
    rintro rfl
    exact other (List.mem_map_of_mem hpart)
  | @listed _ members items all =>
    have hobject : Value.fields? (parts.map Prod.fst) (.object members) = some items := by
      rw [Value.fields?_object_eq_some_iff, List.map_map]
      exact all
    have hlen : items.length = parts.length := by simpa using (congrArg List.length all).symm
    have harray : Value.fields? (parts.map Prod.fst) (.array items) = some items := by
      rw [Value.fields?, List.length_map, if_pos hlen]
    rw [hobject, harray]
    exact .some (.refl hlen)
  | @member _ shape before name v w after part h =>
    refine rel_fields?_object fun part' hpart' => rel_lookup_member fun hname => ?_
    have hpart : part' = (name, shape) := List.inj_on_of_nodup_map distinct hpart' part hname
    subst hpart
    exact .of_respelled h
  | item before after part h =>
    refine rel_fields?_item fun part' hpart' => ?_
    cases Option.some.inj (part.symm.trans hpart')
    exact .of_respelled h

/-- A value with all its parts says what their list says. -/
theorem equivalent_array_of_fields? (h : v.fields? (parts.map Prod.fst) = some vs) :
    (record parts).Equivalent v (.array vs) := by
  cases v with
  | array items =>
    rw [Value.fields?] at h
    split at h
    · cases h
      exact .refl _
    · cases h
  | object members =>
    rw [Value.fields?_object_eq_some_iff, List.map_map] at h
    exact .of_respelled (.listed h)
  | _ => cases h

theorem Respelled.hasParts_iff (distinct : (parts.map Prod.fst).Nodup) (h : (record parts).Respelled v w) :
    HasParts parts v ws ↔ HasParts parts w ws := by
  have hfields := h.rel_fields? distinct
  unfold HasParts
  generalize v.fields? (parts.map Prod.fst) = o at hfields
  generalize w.fields? (parts.map Prod.fst) = o' at hfields
  cases hfields with
  | none => rfl
  | some hparts => simp only [Option.some.injEq, exists_eq_left', hparts.trans_iff]

/-- **What says the same as an object of all the parts of a record**: the values that have these parts, up to what the
parts themselves can be changed to. -/
theorem equivalent_object_iff (distinct : (parts.map Prod.fst).Nodup) (hlen : ws.length = parts.length) :
    (record parts).Equivalent v (.object ((parts.map Prod.fst).zip ws)) ↔ HasParts parts v ws := by
  have hobject : Value.fields? (parts.map Prod.fst) (.object ((parts.map Prod.fst).zip ws)) = some ws :=
    Value.fields?_object_eq_some_iff.2 (Value.lookup_zip distinct (by rw [List.length_map, hlen]))
  constructor
  · intro h
    rw [h.congr fun h => propext (h.hasParts_iff distinct)]
    exact ⟨ws, hobject, .refl hlen⟩
  · rintro ⟨vs, hvs, h⟩
    exact (equivalent_array_of_fields? hvs).trans (h.equivalent.trans (equivalent_array_of_fields? hobject).symm)

/-! ## What a change does to the name of a choice -/

/-- **No change alters the name of a choice.**  In an object of one member there is nothing to reorder, and a null has
no object in it. -/
theorem Respelled.choice?_eq (h : choice.Respelled v w) : v.choice? = w.choice? := by
  cases h with
  | named name => rfl
  | reordered h =>
    cases h with
    | @here members members' distinct order =>
      refine Option.ext fun name => ?_
      rw [Value.choice?_eq_some_iff, Value.choice?_eq_some_iff]
      have hone : members = [(name, .null)] ↔ members' = [(name, .null)] := by
        rw [← List.perm_singleton, ← List.perm_singleton]
        exact ⟨order.symm.trans, order.trans⟩
      simpa using hone
    | member before name after h =>
      rw [Value.choice?_object_eq_none, Value.choice?_object_eq_none]
      · rintro rfl
        cases h
      · rintro rfl
        cases h
    | item before after h => rfl

end Shape
end ContextScan.Json
