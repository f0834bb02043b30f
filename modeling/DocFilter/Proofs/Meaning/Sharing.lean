import DocFilter.Pending.Basic
import DocFilter.Proofs.Sql.Evaluation

/-!
# Tests on relations

What a conjunction of tests on one relation says about a base row. A test that selects asks for a
related row; a test that excludes asks that there is none. Two tests on different columns are met by
the same related row, two tests on the same column by different ones. This is made precise by
*slots*, each of which speaks about one related row:

* a selecting slot asks for a row that meets the tests it serves; there are as many as the longest
  line of positive tests on one column needs;
* every excluding test has a slot of its own, which forbids rows that meet the test and whatever
  else the slot serves;
* further selecting slots are there for the tests on a join table that find no place before.

A test that selects is served by the slot whose number, among the slots that admit its column, is
the number of the test among the tests on its column (`Pending.served`). Tests are counted in the
order of their sort keys.
-/

namespace DocFilter

variable {α : Type}

/-! ## Cells -/

namespace Database

/-- Whether two cells are equal. Null equals nothing. -/
def same (db : Database α) : Option α → Option α → Bool
  | some a, some b => db.compare .eq a b
  | _, _ => false

/-- Whether a cell is what an operand asks for; null asks for null. -/
def fits (db : Database α) (cell : Option α) : Value → Bool
  | .null => cell.isNone
  | v => cell.any fun a => db.compare .eq a (db.literal v)

/-- Whether a cell is known to be something else than an operand. -/
def avoids (db : Database α) (cell : Option α) : Value → Bool
  | .null => cell.isSome
  | v => cell.any fun a => !db.compare .eq a (db.literal v)

/-- Whether a cell is in a given relation with an operand. -/
def compares (db : Database α) (op : Sql.BinaryOp) (cell : Option α) (v : Value) : Bool :=
  cell.any fun a => db.compare op a (db.literal v)

end Database

/-- Whether a comparator holds between a cell and an operand. -/
def Comparator.holds (db : Database α) (op : Comparator) (cell : Option α) (v : Value) : Bool :=
  match op with
  | .eq => db.fits cell v
  | .ne => match v with
    | .null => cell.isSome
    | v => db.compares .ne cell v
  | .gt => db.compares .gt cell v
  | .ge => db.compares .ge cell v
  | .lt => db.compares .lt cell v
  | .le => db.compares .le cell v
  | .isIn => v.toList.any (db.fits cell)
  | .notIn => v.toList.all (db.avoids cell)

/-- What a comparator that excludes looks for. -/
def Comparator.sought : Comparator → Comparator
  | .ne => .eq
  | .notIn => .isIn
  | op => op

/-! ## Related rows -/

/-- A row of a target that belongs to a base row, with the row of the join table that says so. When
there is no join table, the target row says it itself. -/
structure RelatedRow (α : Type) where
  /-- The row of the join table. -/
  link : Row α
  /-- The row of the target. -/
  target : Row α

/-- The related rows of a base row, which is given by its key. -/
def Relation.rowsOf (db : Database α) (key : α) (r : Relation) : List (RelatedRow α) :=
  match r.link with
  | .oneToMany foreignKey =>
    ((db.rows r.target).filter fun t => db.same (some key) (t foreignKey)).map fun t => ⟨t, t⟩
  | .manyToMany joinTable joinFrom joinTo =>
    (db.rows joinTable).flatMap fun l =>
      ((db.rows r.target).filter fun t =>
        db.same (some key) (l joinFrom) && db.same (t r.targetKey) (l joinTo)).map fun t => ⟨l, t⟩

namespace Pending

/-- Whether a related row is what a test looks for. -/
def meets (db : Database α) (r : RelatedRow α) (p : Pending) : Bool :=
  p.op.sought.holds db ((if p.field.onJoinTable then r.link else r.target) p.field.column) p.value

/-! ## Slots -/

/-- A place for tests that speak about the same related row. -/
inductive Slot where
  /-- For tests that select. -/
  | selecting
  /-- For a test that excludes. -/
  | excluding (p : Pending)

/-- Whether a slot can serve a test that selects by a column: all but those whose own test is about
that column. -/
def Slot.admits (c : Column) : Slot → Bool
  | .selecting => true
  | .excluding p => p.field.ref != c

/-- Tests in the order in which slots are given to them. -/
def ranked (ts : List Pending) : List Pending :=
  ts.mergeSort precedes

/-- The tests that select by a column. -/
def line (ts : List Pending) (c : Column) : List Pending :=
  (ranked ts).filter fun p => !p.op.isNegated && p.field.ref == c

/-- The tests that exclude. -/
def excluding (ts : List Pending) : List Pending := (ranked ts).filter (·.op.isNegated)

/-- The length of the longest line of positive tests. -/
def width (ts : List Pending) : Nat :=
  ((ts.filter (·.role == .positive)).map fun p => (line ts p.field.ref).length).foldr max 0

/-- The slots that the positive tests and the excluding ones need. -/
def firstSlots (ts : List Pending) : List Slot :=
  List.replicate (width ts) .selecting ++ (excluding ts).map .excluding

/-- How many tests on a join table find no place in the first slots, on the column where most of
them are left. -/
def surplus (ts : List Pending) : Nat :=
  ((ts.filter (·.role == .qualifier)).map fun p =>
    (line ts p.field.ref).length - (firstSlots ts).countP (·.admits p.field.ref)).foldr max 0

/-- The slots of a conjunction. -/
def slots (ts : List Pending) : List Slot :=
  firstSlots ts ++ List.replicate (surplus ts) .selecting

/-- The test that a slot is for. -/
def Slot.own : Slot → List Pending
  | .selecting => []
  | .excluding p => [p]

/-- The tests that the slot at position `i` serves: its own, and from each line of tests that select
the one whose number in the line is the number of the slot among those that admit the line. -/
def served (ts : List Pending) (i : Nat) (s : Slot) : List Pending :=
  s.own ++ ts.filter fun p => !p.op.isNegated && s.admits p.field.ref &&
    (line ts p.field.ref)[((slots ts).take i).countP (·.admits p.field.ref)]? == some p

/-- What a slot that serves `tests` says about the related rows. -/
def Slot.holds (db : Database α) (rows : List (RelatedRow α)) (tests : List Pending) : Slot → Bool
  | .selecting => rows.any fun r => tests.all (meets db r)
  | .excluding _ => !rows.any fun r => tests.all (meets db r)

/-- What a conjunction of tests on one relation says about the related rows. -/
def together (db : Database α) (rows : List (RelatedRow α)) (ts : List Pending) : Bool :=
  (slots ts).zipIdx.all fun (s, i) => s.holds db rows (served ts i s)

end Pending

end DocFilter
