import ContextScan.Json.Value
import ContextScan.Options
import ContextScan.Token
/-!
# Json.Codec — values stored as JSON

A value is written in one form: a choice by its name, a word as an integer, a record as an object with a member for
each part.  Reading accepts every form that `Value.choice?` and `Value.fields?` allow, and nothing else.
-/
namespace ContextScan.Json

universe u

/-- **How a type is stored.** -/
class Codec (α : Type u) where
  encode : α → Value
  decode : Value → Option α

open Codec

instance : Codec UInt64 where
  encode n := .integer n.toNat
  decode
    | .integer n => if 0 ≤ n ∧ n < UInt64.size then some (UInt64.ofNat n.toNat) else none
    | _ => none

instance : Codec String where
  encode s := .string s
  decode
    | .string s => some s
    | _ => none

instance : Codec Kind where
  encode k := .string k.name
  decode v := v.choice?.bind Kind.ofName?

instance : Codec DollarSpan where
  encode d := .string d.name
  decode v := v.choice?.bind DollarSpan.ofName?

instance : Codec Options where
  encode o := .object [("dollar_span", encode o.dollarSpan)]
  decode v :=
    match v.fields? ["dollar_span"] with
    | some [dollarSpan] => do return ⟨← decode dollarSpan⟩
    | _ => none

instance : Codec Position where
  encode p :=
    .object [("index", encode p.index), ("byte_offset", encode p.byteOffset), ("line", encode p.line),
      ("column", encode p.column)]
  decode v :=
    match v.fields? ["index", "byte_offset", "line", "column"] with
    | some [index, byteOffset, line, column] => do
      return ⟨← decode index, ← decode byteOffset, ← decode line, ← decode column⟩
    | _ => none

instance : Codec Span where
  encode s := .object [("start", encode s.start), ("end", encode s.stop)]
  decode v :=
    match v.fields? ["start", "end"] with
    | some [start, stop] => do return ⟨← decode start, ← decode stop⟩
    | _ => none

instance : Codec Token where
  encode t := .object [("kind", encode t.kind), ("text", encode t.text), ("span", encode t.span)]
  decode v :=
    match v.fields? ["kind", "text", "span"] with
    | some [kind, text, span] => do return ⟨← decode kind, ← decode text, ← decode span⟩
    | _ => none

end ContextScan.Json
