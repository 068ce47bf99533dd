import Mathlib

/-! # Errors

    `rusternetes_common::Error`. A field error list and a JSON error are kept
    as the texts they render to.
-/

namespace Common

inductive Error where
  | NotFound (message : String)
  | AlreadyExists (message : String)
  | InvalidResource (message : String)
  | Invalid (errs : List String)
  | BadRequest (message : String)
  | Serialization (message : String)
  | Storage (message : String)
  | StorageTooLarge (message : String)
  | Network (message : String)
  | Authentication (message : String)
  | Authorization (message : String)
  | Forbidden (message : String)
  | Conflict (message : String)
  | TooManyRequests (message : String)
  | Gone (message : String)
  | GoneWithContinue (message continue_token : String)
  | UnsupportedMediaType (message : String)
  | NotAcceptable (message : String)
  | Internal (message : String)
  | Status (message : Option String)
  deriving DecidableEq, Repr

def Error.to_string : Error → String
  | .NotFound m => "Resource not found: " ++ m
  | .AlreadyExists m => "Resource already exists: " ++ m
  | .InvalidResource m => "Invalid resource: " ++ m
  | .Invalid errs => "Invalid resource: " ++ "; ".intercalate errs
  | .BadRequest m => "Bad request: " ++ m
  | .Serialization m => "Serialization error: " ++ m
  | .Storage m => "Storage error: " ++ m
  | .StorageTooLarge m => "Storage error: " ++ m
  | .Network m => "Network error: " ++ m
  | .Authentication m => "Authentication error: " ++ m
  | .Authorization m => "Authorization error: " ++ m
  | .Forbidden m => "Forbidden: " ++ m
  | .Conflict m => "Conflict: " ++ m
  | .TooManyRequests m => "Too many requests: " ++ m
  | .Gone m => "Gone: " ++ m
  | .GoneWithContinue m _ => m
  | .UnsupportedMediaType m => "Unsupported media type: " ++ m
  | .NotAcceptable m => "Not acceptable: " ++ m
  | .Internal m => "Internal error: " ++ m
  | .Status m => m.getD ""

end Common
