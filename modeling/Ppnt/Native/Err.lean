/-!
# Errors

Model of `ppnt-common/src/err.ixx`.  An `Error` is the error code and the message text; the
source location and the optional cause are only printed and are left out.
-/

namespace Ppnt.Native

/-- The `std::errc` values the modelled code raises, and the system codes it passes on. -/
inductive Errc where
  | badMessage
  | brokenPipe
  | connectionAborted
  | invalidArgument
  | ioError
  | noMessage
  | notConnected
  | operationCanceled
  | system (code : Nat)
deriving DecidableEq, Repr

/-- `ppnt::Error`. -/
structure Error where
  ec : Errc
  message : String := ""
deriving DecidableEq, Repr

/-- `make_err_result(errc, msg)`. -/
def makeErrResult {α : Type} (ec : Errc) (message : String) : Except Error α :=
  .error { ec, message }

end Ppnt.Native
