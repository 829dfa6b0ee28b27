import EventRelay.Filter
/-!
# Subscriptions

A connection names its subscriptions itself, by one to 39 printable ASCII characters other than the
quote and the backslash.  A subscription is known by its connection and its name.
-/

namespace EventRelay

/-- Why a text does not name a subscription. -/
inductive SubIdError where
  | tooShort
  | tooLong
  | badCharacter
  deriving DecidableEq

def SubIdError.message : SubIdError → String
  | .tooShort => "invalid subscription id: subscription id too short"
  | .tooLong => "invalid subscription id: subscription id too long"
  | .badCharacter => "invalid subscription id: invalid character in subscription id"

namespace SubId

/-- The longest name, in bytes. -/
def maxSize : Nat := 39

def isNameByte (b : UInt8) : Bool :=
  0x20 ≤ b && b < 0x7f && b != '\\'.toUInt8 && b != '"'.toUInt8

/-- What is wrong with a name; its size counts first. -/
def fault? (s : String) : Option SubIdError :=
  let bytes := Utf8.encode s
  if bytes.isEmpty then some .tooShort
  else if maxSize < bytes.length then some .tooLong
  else if bytes.all isNameByte then none
  else some .badCharacter

end SubId

/-- The name of a subscription. -/
structure SubId where
  text : String
  fault?_text : SubId.fault? text = none
  deriving DecidableEq

def SubId.ofString (s : String) : Except SubIdError SubId :=
  match h : SubId.fault? s with
  | none => .ok ⟨s, h⟩
  | some e => .error e

/-- A connection is known by a number. -/
abbrev ConnId := Nat

/-- Where an event is sent: a subscription of a connection. -/
structure Recipient where
  conn : ConnId
  subId : SubId
  deriving DecidableEq

/-- What a connection asks for under a name. -/
structure Subscription extends Recipient where
  filters : FilterGroup
  deriving DecidableEq

/-- A subscription and how far it has been served: it gets the events above `watermark` live, and
those up to it by replay. -/
structure Follower where
  sub : Subscription
  watermark : Nat
  deriving DecidableEq

end EventRelay
