import Outpost.Text

/-!
# Store keys and store errors

Keys are paths: segments joined by slashes, none of them empty, a dot or two dots.
-/

namespace Outpost.Store

inductive OsError where
  | notFound
  | exists
  | notDirectory
  | isDirectory
  | invalidArgument
  | nameTooLong
  | notEmpty
  | linkLoop
  | nulInName
  deriving DecidableEq, Repr

def OsError.message : OsError → String
  | .notFound => "No such file or directory (os error 2)"
  | .exists => "File exists (os error 17)"
  | .notDirectory => "Not a directory (os error 20)"
  | .isDirectory => "Is a directory (os error 21)"
  | .invalidArgument => "Invalid argument (os error 22)"
  | .nameTooLong => "File name too long (os error 36)"
  | .notEmpty => "Directory not empty (os error 39)"
  | .linkLoop => "Too many levels of symbolic links (os error 40)"
  | .nulInName => "file name contained an unexpected NUL byte"

inductive StoreError where
  | empty
  | notFound
  | noContent
  | conflict
  | invalidKey (key : String)
  | system (error : OsError)
  | failed (description : String)
  deriving DecidableEq, Repr

def StoreError.message : StoreError → String
  | .empty => "specified key is empty"
  | .notFound => "specified key is not found"
  | .noContent => "specified key has no contents"
  | .conflict => "specified key is under accessing"
  | .invalidKey key => "invalid key: " ++ key
  | .system error => error.message
  | .failed description => description

def StoreError.isNotFound : StoreError → Bool
  | .notFound | .noContent => true
  | _ => false

def keySegments (key : String) : List String := Text.split '/' key

def isSegment (segment : String) : Bool := segment ≠ "" && segment ≠ "." && segment ≠ ".."

/-- Refuses the empty key and every key with a segment that would lead elsewhere. -/
def validateKey (key : String) : Except StoreError Unit :=
  if key = "" then .error .empty
  else if (keySegments key).all isSegment then .ok ()
  else .error (.invalidKey key)

end Outpost.Store
