import Breadboard.Core.Basics
import Breadboard.Foundations.Decimal
import Breadboard.Foundations.JsonValue

/-!
# bb_openapi - the structural validator

The schema is parsed and walked beside the value; each keyword has its own check, and the first
one that fails fills in the error.  cJSON is a parameter: its parser, its lookups, its comparison
and what `snprintf` makes of a number.  Warnings in the log are left out.
-/

namespace Breadboard
namespace OpenApi

open Foundations.JsonValue

/-! ## Texts -/

/-- `type`. -/
def kType : Bytes := [116, 121, 112, 101]

/-- `enum`. -/
def kEnum : Bytes := [101, 110, 117, 109]

/-- `required`. -/
def kRequired : Bytes := [114, 101, 113, 117, 105, 114, 101, 100]

/-- `properties`. -/
def kProperties : Bytes := [112, 114, 111, 112, 101, 114, 116, 105, 101, 115]

/-- `additionalProperties`. -/
def kAdditional : Bytes :=
  [97, 100, 100, 105, 116, 105, 111, 110, 97, 108, 80, 114, 111, 112, 101, 114, 116, 105, 101, 115]

/-- `items`. -/
def kItems : Bytes := [105, 116, 101, 109, 115]

/-- `string`. -/
def tString : Bytes := [115, 116, 114, 105, 110, 103]

/-- `integer`. -/
def tInteger : Bytes := [105, 110, 116, 101, 103, 101, 114]

/-- `number`. -/
def tNumber : Bytes := [110, 117, 109, 98, 101, 114]

/-- `boolean`. -/
def tBoolean : Bytes := [98, 111, 111, 108, 101, 97, 110]

/-- `null`. -/
def tNull : Bytes := [110, 117, 108, 108]

/-- `object`. -/
def tObject : Bytes := [111, 98, 106, 101, 99, 116]

/-- `array`. -/
def tArray : Bytes := [97, 114, 114, 97, 121]

/-- `expected type '`. -/
def textExpected : Bytes := [101, 120, 112, 101, 99, 116, 101, 100, 32, 116, 121, 112, 101, 32, 39]

/-- `' but got cJSON type `. -/
def textButGot : Bytes :=
  [39, 32, 98, 117, 116, 32, 103, 111, 116, 32, 99, 74, 83, 79, 78, 32, 116, 121, 112, 101, 32]

/-- `<non-string>`. -/
def textNonString : Bytes := [60, 110, 111, 110, 45, 115, 116, 114, 105, 110, 103, 62]

/-- `value '`. -/
def textValue : Bytes := [118, 97, 108, 117, 101, 32, 39]

/-- `' is not in enum`. -/
def textNotInEnum : Bytes :=
  [39, 32, 105, 115, 32, 110, 111, 116, 32, 105, 110, 32, 101, 110, 117, 109]

/-- `required property '`. -/
def textRequired : Bytes :=
  [114, 101, 113, 117, 105, 114, 101, 100, 32, 112, 114, 111, 112, 101, 114, 116, 121, 32, 39]

/-- `' is missing`. -/
def textMissing : Bytes := [39, 32, 105, 115, 32, 109, 105, 115, 115, 105, 110, 103]

/-- `additional property '`. -/
def textAdditional : Bytes :=
  [97, 100, 100, 105, 116, 105, 111, 110, 97, 108, 32, 112, 114, 111, 112, 101, 114, 116, 121, 32,
   39]

/-- `' not allowed`. -/
def textNotAllowed : Bytes := [39, 32, 110, 111, 116, 32, 97, 108, 108, 111, 119, 101, 100]

/-! ## cJSON -/

/-- What is used of cJSON and of `snprintf`. -/
structure CJson (ν : Type) where
  parse : Bytes → Option (Json ν)
  getObjectItemCaseSensitive : Json ν → Bytes → Option (Json ν)
  hasObjectItem : Json ν → Bytes → Bool
  compare : Json ν → Json ν → Bool
  typeCode : Json ν → Nat
  printG : ν → Bytes

/-- A letter of the alphabet in lower case. -/
def toLower (b : UInt8) : UInt8 :=
  if 65 ≤ b ∧ b ≤ 90 then b + 32 else b

/-- Two names that differ in case only. -/
def SameUpToCase (s t : Bytes) : Prop :=
  s.map toLower = t.map toLower

instance (s t : Bytes) : Decidable (SameUpToCase s t) :=
  inferInstanceAs (Decidable (s.map toLower = t.map toLower))

/--
What the documentation of cJSON says, of values whose objects have distinct names: one lookup
finds the member of a name, the other one looks for it in any case, and the comparison is
equality up to the order of members.
-/
structure CJson.Documented {ν : Type} [DecidableEq ν] (lib : CJson ν) : Prop where
  get : ∀ j name x, Distinct j → (lib.getObjectItemCaseSensitive j name = some x ↔ Has j name x)
  has : ∀ j name, Distinct j →
    (lib.hasObjectItem j name = true ↔ ∃ name' x, Has j name' x ∧ SameUpToCase name' name)
  compare : ∀ j k, Distinct j → Distinct k → lib.compare j k = same j k

variable {ν : Type}

/-! ## The path and the error -/

/-- `PATH_DEPTH_MAX`. -/
def pathDepthMax : Nat := 16

/-- `path_stack_t`: the segments below `depth`. -/
abbrev PathStack := List Bytes

/-- `path_push`; a full stack stays as it is. -/
def PathStack.push (ps : PathStack) (seg : Bytes) : PathStack :=
  if pathDepthMax ≤ ps.length then ps else ps ++ [seg.take 63]

/-- `path_push_index`. -/
def PathStack.pushIndex (ps : PathStack) (idx : Nat) : PathStack :=
  if pathDepthMax ≤ ps.length then ps
  else ps ++ [(91 :: Foundations.Decimal.decimal idx ++ [93]).take 63]

/-- `path_pop`, also of what was not pushed. -/
def PathStack.pop (ps : PathStack) : PathStack :=
  List.dropLast ps

/-- The loop of `path_render` over the segments from number `i` on. -/
def renderFrom (bufsz : Nat) : Nat → List Bytes → Bytes → Bytes
  | _, [], written => written
  | i, seg :: rest, written =>
      if written.length < bufsz - 1 then
        let written := if 0 < i then written ++ [46] else written
        renderFrom bufsz (i + 1) rest (written ++ seg.take (bufsz - written.length - 1))
      else written

/-- `path_render`. -/
def PathStack.render (ps : PathStack) (bufsz : Nat) : Bytes :=
  renderFrom bufsz 0 ps []

/-- `bb_openapi_validate_err_t`. -/
structure ValidateErr where
  path : Bytes
  message : Bytes
  deriving Repr, DecidableEq

/-- The error at a path, with a message of at most 191 bytes. -/
def errAt (ps : PathStack) (message : Bytes) : ValidateErr where
  path := ps.render 64
  message := message.take 191

/-! ## The keywords -/

section Checks

variable (lib : CJson ν)

/-- `value_matches_type`; a name it does not know fits everything. -/
def valueMatchesType (value : Json ν) (type : Bytes) : Bool :=
  if type = tString then value matches .str _
  else if type = tInteger then value matches .num _
  else if type = tNumber then value matches .num _
  else if type = tBoolean then value matches .bool _
  else if type = tNull then value matches .null
  else if type = tObject then value matches .obj _
  else if type = tArray then value matches .arr _
  else true

/-- `check_type`. -/
def checkType (schema value : Json ν) (ps : PathStack) : Option ValidateErr :=
  match lib.getObjectItemCaseSensitive schema kType with
  | some (.str type) =>
      if valueMatchesType value type then none
      else
        some (errAt ps (textExpected ++ type ++ textButGot ++
          Foundations.Decimal.decimal (lib.typeCode value)))
  | _ => none

/-- How `check_enum` shows the value. -/
def enumText (value : Json ν) : Bytes :=
  match value with
  | .str s => s.take 63
  | .num v => (lib.printG v).take 63
  | _ => textNonString

/-- `check_enum`. -/
def checkEnum (schema value : Json ν) (ps : PathStack) : Option ValidateErr :=
  match lib.getObjectItemCaseSensitive schema kEnum with
  | some (.arr entries) =>
      if entries.any fun entry => lib.compare value entry then none
      else some (errAt ps (textValue ++ enumText lib value ++ textNotInEnum))
  | _ => none

/-- The loop of `check_required`; what is no string is passed over. -/
def requiredLoop (value : Json ν) (ps : PathStack) : List (Json ν) → Option ValidateErr
  | [] => none
  | .str keyName :: rest =>
      if lib.hasObjectItem value keyName then requiredLoop value ps rest
      else some (errAt ps (textRequired ++ keyName ++ textMissing))
  | _ :: rest => requiredLoop value ps rest

/-- `check_required`. -/
def checkRequired (schema value : Json ν) (ps : PathStack) : Option ValidateErr :=
  match lib.getObjectItemCaseSensitive schema kRequired, value with
  | some (.arr keys), .obj _ => requiredLoop lib value ps keys
  | _, _ => none

/-- The loop of `check_properties` over the members of the value. -/
def extraLoop (props : Json ν) (ps : PathStack) :
    List (Bytes × Json ν) → Option ValidateErr
  | [] => none
  | (key, _) :: rest =>
      match lib.getObjectItemCaseSensitive props key with
      | none => some (errAt ps (textAdditional ++ key ++ textNotAllowed))
      | some _ => extraLoop props ps rest

/-- `reject_extra`. -/
def rejectExtra (schema : Json ν) : Bool :=
  match lib.getObjectItemCaseSensitive schema kAdditional with
  | some (.bool false) => true
  | _ => false

/-- The validation of a subschema and a part of the value. -/
abbrev Node (ν : Type) := Json ν → Json ν → PathStack → Option ValidateErr × PathStack

/-- The loop of `check_properties` over the declared properties. -/
def propertiesLoop (node : Node ν) (value : Json ν) :
    List (Bytes × Json ν) → PathStack → Option ValidateErr × PathStack
  | [], ps => (none, ps)
  | (key, propSchema) :: rest, ps =>
      match lib.getObjectItemCaseSensitive value key with
      | none => propertiesLoop node value rest ps
      | some valChild =>
          match node propSchema valChild (ps.push key) with
          | (some err, ps) => (some err, ps.pop)
          | (none, ps) => propertiesLoop node value rest ps.pop

/-- `check_properties`. -/
def checkProperties (node : Node ν) (schema value : Json ν) (ps : PathStack) :
    Option ValidateErr × PathStack :=
  match lib.getObjectItemCaseSensitive schema kProperties, value with
  | some (.obj props), .obj members =>
      match if rejectExtra lib schema then extraLoop lib (.obj props) ps members else none with
      | some err => (some err, ps)
      | none => propertiesLoop lib node value props ps
  -- without an object of properties nothing is looked at
  | _, _ => (none, ps)

/-- The loop of `check_items`. -/
def itemsLoop (node : Node ν) (itemsSchema : Json ν) :
    Nat → List (Json ν) → PathStack → Option ValidateErr × PathStack
  | _, [], ps => (none, ps)
  | idx, elem :: rest, ps =>
      match node itemsSchema elem (ps.pushIndex idx) with
      | (some err, ps) => (some err, ps.pop)
      | (none, ps) => itemsLoop node itemsSchema (idx + 1) rest ps.pop

/-- `check_items`. -/
def checkItems (node : Node ν) (schema value : Json ν) (ps : PathStack) :
    Option ValidateErr × PathStack :=
  match lib.getObjectItemCaseSensitive schema kItems, value with
  | some itemsSchema, .arr elems => itemsLoop node itemsSchema 0 elems ps
  | _, _ => (none, ps)

/-- `validate_node`, with at most so many levels of schemas. -/
def validateNode : Nat → Node ν
  | 0, _, _, ps => (none, ps)
  | n + 1, .obj members, value, ps =>
      let schema := Json.obj members
      match checkType lib schema value ps with
      | some err => (some err, ps)
      | none =>
          match checkEnum lib schema value ps with
          | some err => (some err, ps)
          | none =>
              match checkRequired lib schema value ps with
              | some err => (some err, ps)
              | none =>
                  match checkProperties lib (validateNode n) schema value ps with
                  | (some err, ps) => (some err, ps)
                  | (none, ps) => checkItems lib (validateNode n) schema value ps
  | _ + 1, _, _, ps => (none, ps)

/--
`bb_openapi_validate`: the code and what is written to the error.  A schema has fewer levels
than values in it.
-/
def validate (schemaJson : Option Bytes) (value : Option (Json ν)) : BbErr × Option ValidateErr :=
  match schemaJson, value with
  | some text, some value =>
      match lib.parse text with
      | none => (.invalidArg, none)
      | some schema =>
          match (validateNode lib schema.size schema value []).1 with
          | none => (.ok, none)
          | some err => (.validation, some err)
  | _, _ => (.invalidArg, none)

end Checks

end OpenApi
end Breadboard
