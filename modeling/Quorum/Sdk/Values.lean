import Quorum.Foundation.CodeUnits
import Quorum.Foundation.Int128
import Quorum.Host

/-!
# Values of the host and of the client

A contract hands out host values, and the client works on what the library makes of them. A struct
becomes an object with the names of its fields, a unit variant an array with its name, an address
and a text a string. How texts and addresses are written, and what becomes of the values that
neither contract hands out, is up to the library.
-/

namespace Quorum.Sdk

open Foundation

/-- A value of the host. -/
inductive ScVal where
  | void
  | bool (value : Bool)
  | u32 (value : ℕ)
  | u64 (value : ℕ)
  | i128 (value : I128)
  | symbol (name : JsString)
  | string (value : Text)
  | address (value : Address)
  | vec (entries : List ScVal)
  | map (fields : List (JsString × ScVal))
  | other (tag : ℕ)

/-- A value of the client. -/
inductive Native where
  | undefined
  | null
  | bool (value : Bool)
  | number (value : ℕ)
  | bigint (value : ℤ)
  | string (value : JsString)
  | array (entries : List Native)
  | object (fields : List (JsString × Native))

/-- How the library writes texts and addresses, and what it makes of the other values, which it may
refuse. -/
structure Library where
  text : Text → JsString
  strkey : Address → JsString
  other : ℕ → Except JsString Native

mutual

/-- What the library makes of a host value. -/
def scValToNative (lib : Library) : ScVal → Except JsString Native
  | .void => .ok .null
  | .bool value => .ok (.bool value)
  | .u32 value => .ok (.number value)
  | .u64 value => .ok (.bigint value)
  | .i128 value => .ok (.bigint value.val)
  | .symbol name => .ok (.string name)
  | .string value => .ok (.string (lib.text value))
  | .address value => .ok (.string (lib.strkey value))
  | .vec entries => (nativeEntries lib entries).map .array
  | .map fields => (nativeFields lib fields).map .object
  | .other tag => lib.other tag

def nativeEntries (lib : Library) : List ScVal → Except JsString (List Native)
  | [] => .ok []
  | entry :: entries => do
    let first ← scValToNative lib entry
    let rest ← nativeEntries lib entries
    .ok (first :: rest)

def nativeFields (lib : Library) :
    List (JsString × ScVal) → Except JsString (List (JsString × Native))
  | [] => .ok []
  | (name, value) :: fields => do
    let first ← scValToNative lib value
    let rest ← nativeFields lib fields
    .ok ((name, first) :: rest)

end

/-- `raw[key]` for an object. A property that is missing is undefined. -/
def Native.property (raw : Native) (key : JsString) : Native :=
  match raw with
  | .object fields => (fields.lookup key).getD .undefined
  | _ => .undefined

/-- A unit variant, as the host writes it. -/
def ScVal.variant (name : JsString) : ScVal := .vec [.symbol name]

end Quorum.Sdk
