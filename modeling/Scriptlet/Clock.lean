/-!
# The clock

What the system clock shows is not up to the program. Between two readings it may stand still, go on
or be set back, and it may stand before 1970. So a clock is a script of readings. Each is taken once,
in their order, like the lines of the input, and those to come may not be known yet.
-/

namespace Scriptlet

structure Clock where
  /-- The whole seconds since the beginning of 1970 at each reading, below zero before it. -/
  script : Nat → Option Int
  /-- How many readings were taken. -/
  taken : Nat := 0

namespace Clock

/-- The clock whose first readings are known. -/
def ofList (readings : List Int) : Clock := { script := (readings[·]?) }

/-- A clock that stands still. -/
def still (seconds : Int) : Clock := { script := fun _ => some seconds }

/-- Take the next reading, if it is known. -/
def read (c : Clock) : Option Int × Clock :=
  match c.script c.taken with
  | some seconds => (some seconds, { c with taken := c.taken + 1 })
  | none => (none, c)

end Clock
end Scriptlet
