import RowTypes.Database.Description

/-! A database server as a run sees it: whether it takes the login, and its answers when
it is asked for its catalog or to prepare a statement. Where no server is found, the
run tries again after a while, and each time waits longer. -/

namespace RowTypes

attribute [local instance (high)] instPowNat Zero.ofOfNat0

inductive Login where
  | accepted
  | rejected
  /-- There is no server. -/
  | unreachable
deriving DecidableEq, Repr

structure Refusal where
  message : String
  code : String
  hint : Option String
deriving DecidableEq, Repr

inductive Answer (α : Type) where
  | given (value : α)
  | refused (cause : Refusal)
  /-- None within the time allowed. -/
  | late
deriving DecidableEq, Repr

inductive ConnectionError where
  | timeout
  | failed
deriving DecidableEq, Repr

inductive CatalogError where
  | timeout
  | refused
deriving DecidableEq, Repr

def CatalogError.message : CatalogError → String
  | timeout => "Catalog query timed out"
  | refused => "Catalog could not be loaded"

structure Server where
  login : Login
  catalog : Answer Catalog
  prepare : String → Answer Description

namespace Server

def unreachable : Server := ⟨.unreachable, .late, fun _ => .late⟩

def maxRetries : Nat := 3

/-- The milliseconds to wait when `n` attempts and one more have failed. -/
def retryDelay (n : Nat) : Nat := min (100 * 2 ^ n) 2000

def retryTime : Nat := ((List.range maxRetries).map retryDelay).sum

theorem retryTime_eq : retryTime = 700 := by decide

def connect (s : Server) (timeout : Nat) : Except ConnectionError Unit :=
  if timeout = 0 then .error .timeout
  else
    match s.login with
    | .accepted => .ok ()
    | .rejected => .error .failed
    | .unreachable => if timeout < retryTime then .error .timeout else .error .failed

def loadCatalog (s : Server) : Except CatalogError Catalog :=
  match s.catalog with
  | .given c => .ok c
  | .refused _ => .error .refused
  | .late => .error .timeout

def describe (s : Server) (sql : String) : Except DescribeError Description :=
  match s.prepare sql with
  | .given d => .ok d
  | .refused r => .error (.refused r.message r.code r.hint)
  | .late => .error .timeout

end Server
end RowTypes
