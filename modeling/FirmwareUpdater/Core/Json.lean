import FirmwareUpdater.Core.Types

/-!
# JSON documents

What the codecs see of a parsed document: a member's value, or a default where
the member is absent or of another type. How text becomes a document is the
library's affair; a codec takes that function as a parameter.
-/

namespace FirmwareUpdater

/-- A member's value, as far as the codecs tell values apart. A string may hold any bytes, an
escaped NUL included. -/
inductive JsonVariant where
  | null
  | bool (value : Bool)
  | integer (value : Int)
  | string (bytes : List UInt8)
  | other
  deriving DecidableEq

/-- A parsed object; an absent member reads as null. -/
structure JsonDocument where
  member : String → JsonVariant

namespace JsonDocument

/-- `doc[key] | static_cast<const char*>(nullptr)`: where the string starts in memory, so a NUL
inside it ends what the caller reads. -/
def text (doc : JsonDocument) (key : String) : Option CString :=
  match doc.member key with
  | .string bytes => some (CString.ofBytes bytes)
  | _ => none

/-- `doc[key] | value` for an integer. -/
def integerOr (doc : JsonDocument) (key : String) (value : Int) : Int :=
  match doc.member key with
  | .integer found => found
  | _ => value

/-- `doc[key] | value` for a boolean. -/
def boolOr (doc : JsonDocument) (key : String) (value : Bool) : Bool :=
  match doc.member key with
  | .bool found => found
  | _ => value

end JsonDocument

/-- A value that may be an object in turn. -/
inductive JsonNode where
  | leaf (value : JsonVariant)
  | object (member : String → JsonNode)

namespace JsonNode

/-- `node[key]`: a member of what is no object reads as null. -/
def member (node : JsonNode) (key : String) : JsonNode :=
  match node with
  | .object member => member key
  | .leaf _ => .leaf .null

/-- What the codecs tell apart where they do not expect an object. -/
def value : JsonNode → JsonVariant
  | .leaf value => value
  | .object _ => .other

/-- `!isNull()` of a `JsonObjectConst`. -/
def isObject : JsonNode → Bool
  | .object _ => true
  | .leaf _ => false

/-- The members that are no objects. -/
def document (node : JsonNode) : JsonDocument := ⟨fun key => (node.member key).value⟩

end JsonNode

/-- A value put into a document that is to be sent. -/
inductive JsonValue where
  | string (bytes : List UInt8)
  | integer (value : Int)
  | bool (value : Bool)
  | object (members : List (String × JsonValue))

/-- A document that is to be sent: its members in the order they were set. -/
abbrev JsonObject := List (String × JsonValue)

/-- `serializeJson(doc, out, cap)`, where `serializeJson` is the library's printer: whether the
text and its terminator fit, and the text. -/
def printJson (serializeJson : JsonObject → List UInt8) (doc : JsonObject) (cap : Nat) :
    CodecError × List UInt8 :=
  let text := serializeJson doc
  if text.length = 0 ∨ cap ≤ text.length then (.bufferTooSmall, text.take cap) else (.ok, text)

end FirmwareUpdater
