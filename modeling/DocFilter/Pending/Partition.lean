import DocFilter.Pending.Basic

/-!
# Partitions of pending tests

The tests of a scope on one relation are split into partitions, and each partition becomes one
subquery. Tests that are joined by `or` stay apart. Tests that are joined by `and` may be met by
different rows of the relation, so no partition has two tests on the same column.

The assignment of tests joined by `and` does not depend on where they stand: they are visited in the
order of their sort keys, first the positive ones, then the negated ones, then the qualifiers.
Afterwards the partitions, and the tests in each, are put back into the order of the document.
-/

namespace DocFilter

/-- Tests that share a subquery, with their positions in the scope. -/
structure Partition where
  /-- The role of the test that the partition was opened for. -/
  role : Role
  /-- The tests. -/
  members : List (Pending × Nat)

namespace Partition

/-- A partition for one test. -/
def single (p : Pending × Nat) : Partition := ⟨p.1.role, [p]⟩

/-- Adds a test. -/
def add (q : Partition) (p : Pending × Nat) : Partition := { q with members := q.members ++ [p] }

/-- Whether a test on the column is there. -/
def constrains (q : Partition) (c : Column) : Bool := q.members.any fun m => m.1.field.ref == c

/-- Whether a test can join a partition opened for `role`. -/
def takes (q : Partition) (role : Role) (p : Pending) : Bool :=
  q.role == role && !q.constrains p.field.ref

/-- The position of the first test. A partition is opened for a test and so has one; without any it
would come after all positions. -/
def firstIndex (q : Partition) : Nat :=
  match q.members with
  | [] => UInt64.size - 1
  | m :: _ => m.2

/-- What joins the subquery of the partition to the others of its scope, which is joined by `c`:
what joins the first test. -/
def connective (c : Connective) (q : Partition) : Connective :=
  match q.members with
  | [] => c
  | m :: _ => m.1.connective

/-- A partition opened for a negated test excludes, any other selects. -/
def membership (q : Partition) : Membership :=
  match q.role with
  | .negated => .notIn
  | .positive => .isIn
  | .qualifier => .isIn

/-- The tests in the order of their positions. -/
def sorted (q : Partition) : Partition :=
  { q with members := q.members.mergeSort fun a b => decide (a.2 ≤ b.2) }

end Partition

/-- The kinds of partitions that a test can join, those it prefers first. -/
def Role.hosts : Role → List Role
  | .positive => [.positive]
  | .negated => []
  | .qualifier => [.positive, .negated, .qualifier]

/-- Adds a test to the first partition opened for `role` that takes it. -/
def joinFirst? (p : Pending × Nat) (role : Role) : List Partition → Option (List Partition)
  | [] => none
  | q :: qs =>
    if q.takes role p.1 then some (q.add p :: qs) else (q :: ·) <$> joinFirst? p role qs

/-- Adds a test to a partition, or opens one for it. -/
def place (qs : List Partition) (p : Pending × Nat) : List Partition :=
  (p.1.role.hosts.findSome? fun role => joinFirst? p role qs).getD (qs ++ [.single p])

/-- The order in which tests joined by `and` are placed. -/
def placingOrder (ps : List (Pending × Nat)) : List (Pending × Nat) :=
  let sorted := ps.mergeSort fun a b => a.1.precedes b.1
  [Role.positive, .negated, .qualifier].flatMap fun role => sorted.filter (·.1.role == role)

/-- Splits the tests of a scope on one relation. -/
def partitions (c : Connective) (ps : List Pending) : List Partition :=
  match c with
  | .or => ps.zipIdx.map .single
  | .and =>
    let qs := (placingOrder ps.zipIdx).foldl place []
    (qs.map Partition.sorted).mergeSort fun a b => decide (a.firstIndex ≤ b.firstIndex)

/-! ## Subqueries -/

/-- The subquery that gives the keys of base rows that have related rows meeting the conditions. A
subquery that excludes must not give null, because nothing is outside a list with null; a foreign
key can be null. -/
def subqueryOf (r : Relation) (m : Membership) (filters : List SubqueryFilter) : Subquery :=
  match r.link with
  | .manyToMany joinTable joinFrom joinTo =>
    { select := ⟨joinTable, joinFrom⟩
      source := joinTable
      join := some ⟨r.target, ⟨r.target, r.targetKey⟩, ⟨joinTable, joinTo⟩⟩
      filters }
  | .oneToMany foreignKey =>
    { select := ⟨r.target, foreignKey⟩
      source := r.target
      join := none
      filters :=
        if m.isNegated then filters ++ [.nullTest ⟨r.target, foreignKey⟩ true] else filters }

/-- The predicate that a partition of tests on a relation becomes in a scope joined by `c`. -/
def Partition.predicate (c : Connective) (base : Column) (r : Relation) (q : Partition) :
    Predicate :=
  .membership (q.connective c) base q.membership
    (subqueryOf r q.membership (q.members.map (·.1.filter)))

/-! ## Buckets -/

/-- The tests of a scope on one relation. -/
structure Bucket where
  /-- The name of the relation. -/
  name : String
  /-- The tests, in order. -/
  tests : List Pending

/-- The tests of a scope by relation, in the order in which relations first come up. -/
def buckets (ps : List Pending) : List Bucket :=
  (ps.map (·.field.name)).eraseDups.map fun name => ⟨name, ps.filter (·.field.name == name)⟩

/-- The predicates that a bucket becomes in a scope joined by `c`. -/
def Bucket.predicates (c : Connective) (base : Column) (b : Bucket) : List Predicate :=
  match b.tests with
  | [] => []
  | p :: _ => (partitions c b.tests).map (·.predicate c base p.field.relation)

end DocFilter
