import RowTypes.Database.Server

/-! The describing of many texts at a time. Each text is sent once, as long as fewer than a
limit are with the server, and the server answers in whatever order it likes. -/

namespace RowTypes

abbrev Descriptions := List (String × Except DescribeError Description)

structure Describing where
  /-- The texts that are still to be sent. -/
  waiting : List String
  /-- The texts that have no answer yet. -/
  sent : List String
  /-- The answers in the order in which they came. -/
  answered : Descriptions

namespace Describing

inductive Event where
  | send
  /-- An answer to the text with this number among those that have none yet. -/
  | answer (n : Nat)
deriving DecidableEq, Repr

variable (limit : Nat) (answer : String → Except DescribeError Description)

def start (texts : List String) : Describing := ⟨texts.eraseDups, [], []⟩

def step (d : Describing) : Event → Describing
  | .send =>
    match d.waiting with
    | [] => d
    | sql :: rest =>
      if d.sent.length < limit then { d with waiting := rest, sent := d.sent ++ [sql] } else d
  | .answer n =>
    match d.sent[n]? with
    | none => d
    | some sql =>
      { d with sent := d.sent.eraseIdx n, answered := d.answered ++ [(sql, answer sql)] }

/-- The answers when all that is left has been sent and answered, one text after the
other. -/
def finish (d : Describing) : Descriptions :=
  d.answered ++ (d.sent ++ d.waiting).map fun sql => (sql, answer sql)

def run (events : List Event) (texts : List String) : Descriptions :=
  (events.foldl (step limit answer) (start texts)).finish answer

end Describing
end RowTypes
