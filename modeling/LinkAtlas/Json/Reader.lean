import LinkAtlas.Json.Basic
import LinkAtlas.Json.Token

/-!
# Reading JSON

A machine with a stack takes the tokens of a text one by one. On the stack stand the arrays and
objects that are open, each with what it holds so far; their depth is not limited.
-/

namespace LinkAtlas

namespace Json

/-- An array or object that is open, with what it holds so far, backwards. -/
inductive Frame where
  | array (items : List Json)
  | object (members : List (Option String × Json))
  /-- an object in the middle of a member -/
  | member (members : List (Option String × Json)) (name : Option String)
deriving Inhabited

/-- What may come next. -/
inductive Awaiting where
  | value
  /-- a value or the end of an array that is still empty -/
  | firstItem
  | name
  /-- a name or the end of an object that is still empty -/
  | firstName
  | colon
  /-- a comma or the end of the innermost array or object -/
  | separator
  | nothing
deriving DecidableEq

structure Reading where
  stack : List Frame
  awaiting : Awaiting
  /-- the value of the text, as soon as it is complete -/
  result : Option Json := none

/-- An object whose names are all readable. -/
def ofMembers (members : List (Option String × Json)) : Json :=
  match members.mapM fun member => member.1.map fun name => (name, member.2) with
  | some named => .object named
  | none => .unreadable

/-- A value is complete and goes into the innermost array or object. -/
def Reading.complete (value : Json) : List Frame → Option Reading
  | [] => some ⟨[], .nothing, some value⟩
  | .array items :: stack => some ⟨.array (value :: items) :: stack, .separator, none⟩
  | .member members name :: stack =>
      some ⟨.object ((name, value) :: members) :: stack, .separator, none⟩
  | .object _ :: _ => none

def closeArray : List Frame → Option Reading
  | .array items :: stack => Reading.complete (.array items.reverse) stack
  | _ => none

def closeObject : List Frame → Option Reading
  | .object members :: stack => Reading.complete (ofMembers members.reverse) stack
  | _ => none

/-- The beginning of a value. -/
def beginValue (stack : List Frame) : Token → Option Reading
  | .openArray => some ⟨.array [] :: stack, .firstItem, none⟩
  | .openObject => some ⟨.object [] :: stack, .firstName, none⟩
  | .null => Reading.complete .null stack
  | .boolean value => Reading.complete (.boolean value) stack
  | .number spelling => Reading.complete (.number spelling) stack
  | .text (some value) => Reading.complete (.text value) stack
  | .text none => Reading.complete .unreadable stack
  | _ => none

/-- The name of a member. -/
def beginMember (stack : List Frame) : Token → Option Reading
  | .text name =>
      match stack with
      | .object members :: rest => some ⟨.member members name :: rest, .colon, none⟩
      | _ => none
  | _ => none

/-- A comma or a closing bracket after an item or a member. -/
def afterValue (stack : List Frame) : Token → Option Reading
  | .comma =>
      match stack with
      | .array _ :: _ => some ⟨stack, .value, none⟩
      | .object _ :: _ => some ⟨stack, .name, none⟩
      | _ => none
  | .closeArray => closeArray stack
  | .closeObject => closeObject stack
  | _ => none

/-- The effect of one token. -/
def Reading.take (reading : Reading) (token : Token) : Option Reading :=
  match reading.awaiting with
  | .value => beginValue reading.stack token
  | .firstItem =>
      if token = .closeArray then closeArray reading.stack else beginValue reading.stack token
  | .name => beginMember reading.stack token
  | .firstName =>
      if token = .closeObject then closeObject reading.stack else beginMember reading.stack token
  | .colon => if token = .colon then some { reading with awaiting := .value } else none
  | .separator => afterValue reading.stack token
  | .nothing => none

/-- Takes tokens in one after the other. -/
def Reading.takeAll : Reading → List Token → Option Reading
  | reading, [] => some reading
  | reading, token :: rest =>
      match reading.take token with
      | none => none
      | some next => next.takeAll rest

def ofTokens? (tokens : List Token) : Option Json :=
  (Reading.takeAll ⟨[], .value, none⟩ tokens).bind Reading.result

/-- The value of a JSON text. -/
def read? (text : String) : Option Json := (tokens? text.toList).bind ofTokens?

end Json

end LinkAtlas
