/-! File paths as texts. Steps to the same directory and repeated slashes are read
as nothing, except for a leading `.`. -/

namespace RowTypes.Path

def segments (path : String) : List String :=
  (path.splitToList (· = '/')).filter (· ≠ "")

/-- The segments that count; the first one is `/` for an absolute path. -/
def components (path : String) : List String :=
  let rest := segments path
  if path.startsWith "/" then "/" :: rest.filter (· ≠ ".")
  else
    match rest with
    | "." :: rest => "." :: rest.filter (· ≠ ".")
    | rest => rest.filter (· ≠ ".")

def isAbsolute (path : String) : Bool := path.startsWith "/"

def ofComponents : List String → String
  | "/" :: rest => "/" ++ String.intercalate "/" rest
  | parts => String.intercalate "/" parts

def fileName? (path : String) : Option String :=
  match (components path).getLast? with
  | some name => if name = "/" ∨ name = "." ∨ name = ".." then none else some name
  | none => none

def trimSegments : List String → List String
  | [] => []
  | first :: rest => first :: (rest.reverse.dropWhile fun s => s = "" || s = ".").reverse

/-- The path without its last component, otherwise as it is written. -/
def parent? (path : String) : Option String :=
  match components path with
  | [] => none
  | ["/"] => none
  | _ =>
    match trimSegments (trimSegments (path.splitToList (· = '/'))).dropLast with
    | [""] => some "/"
    | segments => some (String.intercalate "/" segments)

def join (base path : String) : String :=
  if isAbsolute path then path
  else if base = "" ∨ base.endsWith "/" then base ++ path
  else base ++ "/" ++ path

/-- A file name before and behind its last dot. A leading dot separates nothing. -/
def splitName (name : String) : String × Option String :=
  if name = ".." then (name, none)
  else
    let reversed := name.toList.reverse
    let ext := reversed.takeWhile (· ≠ '.')
    match reversed.drop (ext.length + 1) with
    | [] => (name, none)
    | stem => (String.ofList stem.reverse, some (String.ofList ext.reverse))

def stem? (path : String) : Option String := (fileName? path).map fun n => (splitName n).1

def extension? (path : String) : Option String := (fileName? path).bind fun n => (splitName n).2

end RowTypes.Path
