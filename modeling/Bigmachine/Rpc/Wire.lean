import Bigmachine.Errors.Values
import Bigmachine.Io.Reader

/-!
# What travels between client and server

Requests and responses as the two sides of package rpc see them, and the encodings they
rely on. The encodings (package gob for values and for `*errors.Error`, the texts of
net/http) are not part of the repository: they are the parameter `Wire`, over the Go types
`T` and the Go values `V` that methods take and return. What is assumed of them is a named
hypothesis (`Wire.RoundTrips`). `Reference.wire` is one instance.
-/

namespace Bigmachine.Rpc

open Errors Io

abbrev Bytes := List UInt8

/-- An `io.Reader`, by the results of reading it to its end. -/
abbrev Stream := Reader UInt8 Err

structure Request where
  method : String
  path : String
  body : Bytes

/-- A response; `trailer` is the value of the trailer `x-bigmachine-error`. -/
structure Response where
  status : Nat
  contentType : String
  body : Bytes
  trailer : String

/-- `encode` is `Encode` into an empty buffer: what the buffer holds afterwards, and the error.
`decode` is `Decode` into a value of the given type, or into nothing: the number of bytes read, and
the value or the error. `encodeError` and `decodeError` are the same for `*errors.Error`. `ofText`
and `asText` are the conversions `[]byte(s)` and `string(b)`, and `statusText` is `resp.Status`. -/
structure Wire (T V : Type) where
  encode : V → Bytes × Option Err
  decode : Option T → Bytes → Nat × Except Err V
  encodeError : Err → Bytes × Option Err
  decodeError : Bytes → Except Err Err
  ofText : String → Bytes
  asText : Bytes → String
  statusText : Nat → String

/-- The encoding of the error `e` is decoded to `e`. -/
def Wire.RoundTrips {T V : Type} (w : Wire T V) (e : Err) : Prop :=
  (w.encodeError e).2 = none ∧ w.decodeError (w.encodeError e).1 = .ok e

/-- What is decoded as an `*errors.Error` is one. -/
def Wire.DecodesErrors {T V : Type} (w : Wire T V) : Prop :=
  ∀ b e, w.decodeError b = .ok e → e.IsError

/-! ## One instance -/

namespace Reference

/-- Errors are numbered, and encoded by the length of the body; the empty body encodes no
error. Values are the bytes themselves. -/
def wire : Wire Unit Bytes where
  encode v := (v, none)
  decode _ b := (b.length, .ok b)
  encodeError e := (List.replicate (Encodable.encode e + 1) 0, none)
  decodeError
    | [] => .error .eof
    | _ :: b =>
      match Encodable.decode (α := Err) b.length with
      | some e => if e.IsError then .ok e else .error (.text "gob: bad data")
      | none => .error (.text "gob: bad data")
  ofText s := s.toList.map fun c => UInt8.ofNat c.toNat
  asText b := String.ofList (b.map fun x => Char.ofNat x.toNat)
  statusText n := toString n

theorem wire_roundTrips {e : Err} (he : e.IsError) : wire.RoundTrips e := by
  refine ⟨rfl, ?_⟩
  simp [wire, List.replicate_succ, Encodable.encodek, he]

theorem wire_decodesErrors : wire.DecodesErrors := by
  intro b e h
  match b with
  | [] => cases h
  | _ :: b =>
    simp only [wire] at h
    split at h
    · split at h
      · rename_i he
        cases h
        exact he
      · cases h
    · cases h

end Reference

end Bigmachine.Rpc
