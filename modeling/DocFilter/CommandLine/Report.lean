import DocFilter.Predicate.Encoding
import DocFilter.Relation.Registry
import DocFilter.Sql.Render

/-!
# Reports

What the commands print. A compiled filter is printed as its statement, followed by its parameters
and by the clauses that were passed over in comments, or all together as JSON. Relations are printed
as a table.
-/

namespace DocFilter.CommandLine

/-- A text with blanks at its end, at least `width` characters long. -/
def padRight (width : Nat) (s : String) : String :=
  s ++ String.ofList (List.replicate (width - s.length) ' ')

/-- Lines, each with its end. -/
def unlines (lines : List String) : String := String.join (lines.map (· ++ "\n"))

/-- The line of a parameter. -/
def paramLine (v : Value) (index : Nat) : String :=
  "--   " ++ padRight 4 (toString (index + 1)) ++ " " ++ v.display

/-- The lines of the parameters, if there are any. -/
def paramLines : List Value → List String
  | [] => []
  | params => "-- params:" :: params.zipIdx.map fun (v, i) => paramLine v i

/-- A compiled filter as a statement with comments. -/
def plainReport (s : Sql.Statement) (f : CompiledFilter) : String :=
  unlines (s.sql :: paramLines s.params ++ f.diagnostics.map ("-- skipped: " ++ ·.message))

/-- A compiled filter as JSON. -/
def jsonReport (dialect : Sql.Dialect) (s : Sql.Statement) (f : CompiledFilter) : String :=
  let report : Json := .obj [("dialect", .str dialect.name), ("sql", .str s.sql),
    ("params", .arr (s.params.map Value.toJson)), ("compiled", f.toJson)]
  unlines [report.pretty]

/-- A line of the table of relations. -/
def tableLine (name kind target link : String) : String :=
  padRight 16 name ++ " " ++ padRight 12 kind ++ " " ++ padRight 16 target ++ " " ++ link

/-- The line of a relation. -/
def relationLine (name : String) (r : Relation) : String :=
  let target := r.target ++ "." ++ r.targetKey
  match r.link with
  | .oneToMany foreignKey => tableLine name "oneToMany" target (r.target ++ "." ++ foreignKey)
  | .manyToMany joinTable joinFrom joinTo =>
    tableLine name "manyToMany" target s!"{joinTable} ({joinFrom} -> {joinTo})"

/-- The table of relations. -/
def relationsReport (r : Registry) : String :=
  unlines (tableLine "Relation" "Kind" "Target" "Link" :: String.ofList (List.replicate 63 '-')
    :: r.relations.entries.map fun (name, relation) => relationLine name relation)

/-- The version. -/
def versionReport : String := unlines ["sieve 0.1.0"]

/-- How the program is used. -/
def helpReport : String :=
  unlines
    ["Compile document-style filters into SQL",
      "",
      "Usage: sieve <COMMAND>",
      "",
      "Commands:",
      "  compile    Compile a filter document into a SQL query",
      "  relations  Validate a relation registry and list its relations",
      "",
      "Options of compile:",
      "  --table <TABLE>              Base table the filter applies to",
      "  --relations <RELATIONS>      Path to the relation registry JSON file",
      "  --filter <FILTER>            Filter document as inline JSON",
      "  --filter-file <FILTER_FILE>  Path to a JSON file holding the filter document",
      "  --dialect <DIALECT>          SQL dialect: postgres, mysql or sqlite [default: postgres]",
      "  --strict                     Fail on unknown operators and malformed clauses instead of skipping them",
      "  --marker <MARKER>            Prefix reserving a key for operators [default: $]",
      "  --base-key <BASE_KEY>        Primary key column of the base table [default: id]",
      "  --json                       Print the compiled predicate tree and the SQL as JSON",
      "",
      "Options of relations:",
      "  --relations <RELATIONS>      Path to the relation registry JSON file",
      "",
      "Other options:",
      "  -h, --help                   Print help",
      "  -V, --version                Print version"]

end DocFilter.CommandLine
