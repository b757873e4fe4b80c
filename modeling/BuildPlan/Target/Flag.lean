import BuildPlan.Text.Name

/-!
# Flag axes

Two axes of a target are flag axes: a project asks for a set of their values and each value in the set gives targets of
its own. Every value of a flag type has a bit, and the type lists its values in bit order; a `FlagSet` is a set of them, read
back in that order.
-/

namespace BuildPlan

/-- The axes of a target. `target` stands for the whole key where an error speaks of it. -/
inductive Axis
  | platform
  | devEnv
  | optimization
  | outputKind
  | launchMode
  | buildSystem
  | target
  deriving DecidableEq

/-- The name of an axis in messages. -/
def Axis.name : Axis → String
  | platform => "platform"
  | devEnv => "dev_env"
  | optimization => "optimization"
  | outputKind => "output_kind"
  | launchMode => "launch_mode"
  | buildSystem => "build_system"
  | target => "target"

/-- The values of a flag axis. A set of them fits into a word of 32 bits. -/
class Flag (α : Type) [DecidableEq α] where
  /-- Every value, in bit order. -/
  all : List α
  /-- The axis the values belong to. -/
  axis : Axis
  /-- The bit of a value. -/
  index : α → Nat
  /-- The lowercase name of a value. -/
  name : α → String
  mem_all : ∀ a, a ∈ all
  sorted_all : all.Pairwise (fun a b => index a < index b)
  index_lt : ∀ a, index a < 32

namespace Flag

variable {α : Type} [DecidableEq α] [Flag α]

/-- The value of a name, whatever the case of its ASCII letters. -/
def ofName? (s : String) : Option α := (all : List α).find? (fun a => Text.sameAsciiName (name a) s)

end Flag

/-- A set of flag values. -/
structure FlagSet (α : Type) where
  /-- Whether a value is in the set. -/
  contains : α → Bool

namespace FlagSet

variable {α : Type} [DecidableEq α]

/-- The set without values. -/
def empty : FlagSet α := ⟨fun _ => false⟩

/-- The set with one more value. -/
def insert (s : FlagSet α) (a : α) : FlagSet α := ⟨fun b => b == a || s.contains b⟩

/-- The set of the values of a list. -/
def ofList (l : List α) : FlagSet α := l.foldl insert empty

/-- The set of one value. -/
def single (a : α) : FlagSet α := ofList [a]

variable [Flag α]

/-- Every value of the axis. -/
def full : FlagSet α := ofList Flag.all

/-- The values of the set in bit order. -/
def toList (s : FlagSet α) : List α := (Flag.all : List α).filter s.contains

/-- The number of values. -/
def size (s : FlagSet α) : Nat := s.toList.length

/-- Whether the set has no value. -/
def isEmpty (s : FlagSet α) : Bool := s.toList.isEmpty

/-- The names of the values in bit order. -/
def names (s : FlagSet α) : List String := s.toList.map Flag.name

/-- The set written out: quoted names between braces. -/
def display (s : FlagSet α) : String :=
  "\x7b" ++ Text.join ", " (s.names.map (fun n => "\"" ++ n ++ "\"")) ++ "\x7d"

end FlagSet

end BuildPlan
