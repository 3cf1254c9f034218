import SearchTable.Identity.Digest
import SearchTable.Value.Basic
/-!
# Document identities

A document of a table with a primary key is identified by the values of its key: the identity is a
name-based UUID of their texts, so equal keys always meet in one document.  A table without a key
draws a new identity for every record from a supply of numbers that are never given out twice.
-/

namespace SearchTable.Identity

open Number

/-! ## UUIDs -/

/-- A byte as two hexadecimal digits. -/
def byteText (b : UInt8) : List Char :=
  [Nat.digitChar (b.toNat / 16), Nat.digitChar (b.toNat % 16)]

/-- Sixteen bytes as text, in groups of four, two, two, two and six bytes. -/
def layout (bytes : List UInt8) : String :=
  let group (first count : Nat) : List Char := ((bytes.drop first).take count).flatMap byteText
  String.ofList
    (group 0 4 ++ '-' :: group 4 2 ++ '-' :: group 6 2 ++ '-' :: group 8 2 ++ '-' :: group 10 6)

/-- Sixteen bytes with the version and the variant of a UUID stamped into the seventh and the ninth
of them. -/
def stamp (version : UInt8) (bytes : List UInt8) : List UInt8 :=
  (bytes.set 6 ((bytes.getD 6 0 &&& (0x0f : UInt8)) ||| (version <<< 4))).set 8
    ((bytes.getD 8 0 &&& (0x3f : UInt8)) ||| (0x80 : UInt8))

/-- The UUID of a name: version 3, the digest of the nil namespace followed by the name. -/
def ofName (name : String) : String :=
  layout (stamp 3 (Digest.md5 (List.replicate 16 0 ++ name.toUTF8.data.toList)))

/-- The UUID of version 4 that a supply hands out under a number. -/
def ofNumber (n : Nat) : String := layout (stamp 4 (Digest.lowBytes 16 n).reverse)

/-! ## Keys -/

/-- The name that stands for a key without any text, so that no identity is derived from an empty
name. -/
def emptyKeyName : String := "\x00empty-key"

/-- The name of a key: the plain texts of its values, one after the other. -/
def keyName (values : List Value) : String :=
  let name := String.join (values.map Value.plain)
  if name = "" then emptyKeyName else name

/-- The identity of a document with the given key values. -/
def ofKey (values : List Value) : String := ofName (keyName values)

end SearchTable.Identity
