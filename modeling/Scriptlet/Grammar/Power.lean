namespace Scriptlet

/-- From the weakest on. An operator takes what stands left of it from a reader that was entered at
a weaker power. -/
inductive Power
  | default | comma | assignment | logical | relational | additive | multiplicative | unary | call
  | member | primary
  deriving DecidableEq, Inhabited

namespace Power

def all : List Power :=
  [.default, .comma, .assignment, .logical, .relational, .additive, .multiplicative, .unary, .call,
    .member, .primary]

def rank : Power → Nat
  | default => 0
  | comma => 1
  | assignment => 2
  | logical => 3
  | relational => 4
  | additive => 5
  | multiplicative => 6
  | unary => 7
  | call => 8
  | member => 9
  | primary => 10

instance : LE Power := ⟨fun p q => p.rank ≤ q.rank⟩

instance : LT Power := ⟨fun p q => p.rank < q.rank⟩

instance (p q : Power) : Decidable (p ≤ q) := inferInstanceAs (Decidable (p.rank ≤ q.rank))

instance (p q : Power) : Decidable (p < q) := inferInstanceAs (Decidable (p.rank < q.rank))

def name : Power → String
  | default => "Default"
  | comma => "Comma"
  | assignment => "Assignment"
  | logical => "Logical"
  | relational => "Relational"
  | additive => "Additive"
  | multiplicative => "Multiplicative"
  | unary => "Unary"
  | call => "Call"
  | member => "Member"
  | primary => "Primary"

def ofName? (name : String) : Option Power :=
  all.find? fun power => power.name == name

end Power

end Scriptlet
