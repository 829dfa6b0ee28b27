import EventRelay.Json.Printer
import EventRelay.Subscription
/-!
# Lines for a client

What a client is sent, one line of JSON each: the stored text of an event under the name of the
subscription that asked for it, the end of the stored events, or a notice.
-/

namespace EventRelay.RelayLine

/-- An event; its text is sent as it was stored. -/
def event (sub : SubId) (text : String) : String :=
  "[\"EVENT\"," ++ Json.renderString sub.text ++ "," ++ text ++ "]"

/-- The end of the stored events. -/
def eose (sub : SubId) : String := "[\"EOSE\"," ++ Json.renderString sub.text ++ "]"

def notice (text : String) : String := "[\"NOTICE\"," ++ Json.renderString text ++ "]"

end EventRelay.RelayLine
