import FactIndex.Schema.Issue
import FactIndex.Json.Display

/-!
# Failures

Everything that can stop an operation, each with its cause.

## Main definitions

* `ClientError`: what the client of the search engine reports.
* `Failure`: all causes.
* `ClientError.message`, `Failure.message?`: the wording of those that have one.
-/

namespace FactIndex

open FactIndex.Schema

/-- An error of the client of the search engine. -/
inductive ClientError where
  /-- No connection could be made. -/
  | connection
  /-- The engine did not answer in time. -/
  | timeout
  /-- The request was lost on its way. -/
  | transport
  /-- The engine refused the request. -/
  | refused (status : Int) (error : Json) (reason : Option Json)
deriving DecidableEq

namespace ClientError

/-- The class of a refusal, which depends on its status. -/
def refusalClass (status : Int) : String :=
  if status = 400 then "BadRequestError"
  else if status = 404 then "NotFoundError"
  else if status = 409 then "ConflictError"
  else "ApiError"

/-- The class of an error. -/
def className : ClientError → String
  | .connection => "ConnectionError"
  | .timeout => "ConnectionTimeout"
  | .transport => "TransportError"
  | .refused status _ _ => refusalClass status

/-- The wording of an error. -/
def message : ClientError → String
  | .connection => "Connection error"
  | .timeout => "Connection timed out"
  | .transport => "Transport failed"
  | .refused status error reason =>
    let detail :=
      match reason with
      | some r => ", " ++ r.display
      | none => ""
    refusalClass status ++ "(" ++ toString status ++ ", " ++ error.display ++ detail ++ ")"

end ClientError

/-- What can stop an operation. -/
inductive Failure where
  /-- A request that makes no sense, with the issues that say why if it was read from outside. -/
  | badRequest (text : String) (issues : List Issue)
  /-- A key or a message that is not there. -/
  | notFound (text : String)
  /-- An operation that no provider implements. -/
  | notSupported (text : String)
  /-- A description that cannot be compiled at all. -/
  | internal (text : String)
  /-- A provider that cannot be loaded. -/
  | load (text : String)
  /-- An index that has not been set up. -/
  | configuration (text : String)
  /-- A search engine that cannot be reached. -/
  | unavailable (text : String)
  /-- The hash of an entity that has too few parts. -/
  | malformedHash (hash : String)
  /-- A generation of an index that does not exist. -/
  | unknownVersion (version : String)
  /-- A value that does not fit the type it is read into. -/
  | invalid (issues : List Issue)
  /-- An error of the client that is handed on. -/
  | client (error : ClientError)
  /-- A text or a number that has no meaning where it stands. -/
  | badValue
  /-- A missing argument, or a value of a kind that an operation cannot take. -/
  | badType
  /-- A member that has to be there. -/
  | noMember
  /-- An attribute that a value does not have. -/
  | noAttribute
  /-- A number beyond the range of floats. -/
  | tooLarge
  /-- A text that is no JSON. -/
  | notJson
  /-- An operation of a component without provider. -/
  | notImplemented
deriving DecidableEq

namespace Failure

/-- The wording of a failure that has one. -/
def message? : Failure → Option String
  | .badRequest text _ => some text
  | .notFound text => some text
  | .notSupported text => some text
  | .internal text => some text
  | .load text => some text
  | .configuration text => some text
  | .unavailable text => some text
  | .malformedHash hash => some ("Malformed entity hash " ++ Text.quoted hash)
  | .unknownVersion version => some ("Unknown index version " ++ version)
  | .client error => some error.message
  | .invalid _ | .badValue | .badType | .noMember | .noAttribute | .tooLarge | .notJson
  | .notImplemented => none

/-- The issues behind a failure. -/
def issues : Failure → List Issue
  | .badRequest _ issues => issues
  | .invalid issues => issues
  | _ => []

end Failure

/-- The value that was read, or the failure that its issues amount to. -/
def Schema.Checked.toExcept {α : Type} : Checked α → Except Failure α
  | .ok a => .ok a
  | .bad issues => .error (.invalid issues)

end FactIndex
