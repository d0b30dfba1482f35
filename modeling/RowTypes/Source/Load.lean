import RowTypes.FileTree.Operations
import RowTypes.Source.Query

/-! A file of a tree read for its queries. -/

namespace RowTypes

inductive ExtractError where
  | unterminated (e : Unterminated)
  | io (e : FileError)
deriving DecidableEq, Repr

def ExtractError.message : ExtractError → String
  | unterminated e => e.message
  | io e => e.message

def SourceFile.load (t : FileTree) (path : String) : Except ExtractError SourceFile :=
  match t.read path with
  | .error e => .error (.io e)
  | .ok content =>
    match SourceFile.extract path content with
    | .error e => .error (.unterminated e)
    | .ok file => .ok file

end RowTypes
