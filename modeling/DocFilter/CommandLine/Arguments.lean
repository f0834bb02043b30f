/-!
# Arguments

The command line is a command and its options. An option is written `--name value` or
`--name=value`, or `--name` alone if it is a switch, and at most once. A value does not start with a
hyphen, unless it is the hyphen alone or follows an equals sign.
-/

namespace DocFilter.CommandLine

/-- What follows the name of an option. -/
inductive Shape where
  /-- Nothing. -/
  | switch
  /-- Any text. -/
  | text
  /-- A single character. -/
  | char
  deriving DecidableEq

/-- An option with its value, which is empty for a switch. -/
structure Setting where
  /-- The name, without hyphens. -/
  name : String
  /-- The value. -/
  value : String

/-- Why the options of a command are not used. -/
inductive Stop where
  /-- They are wrong. -/
  | usage
  /-- Help is asked for. -/
  | help
  deriving DecidableEq

/-- Whether a value has the shape that an option wants. -/
def Shape.accepts : Shape → String → Bool
  | .switch, _ => false
  | .text, _ => true
  | .char, v => v.length == 1

/-- An argument without two hyphens at its front, cut at the first equals sign. -/
def longOption? (argument : String) : Option (String × Option String) :=
  match argument.toList with
  | '-' :: '-' :: cs =>
    match cs.dropWhile (· != '=') with
    | [] => some (String.ofList cs, none)
    | _ :: value => some (String.ofList (cs.takeWhile (· != '=')), some (String.ofList value))
  | _ => none

/-- Whether an argument is a hyphen and a letter. -/
def isShort (letter : Char) (argument : String) : Bool :=
  match argument.toList with
  | '-' :: c :: _ => c == letter
  | _ => false

/-- Whether an argument can be the value of the option before it. -/
def isValue (argument : String) : Bool :=
  match argument.toList with
  | '-' :: _ :: _ => false
  | _ => true

/-- Reads the options of a command, after the options `done`. Two hyphens alone end the options, and
nothing may follow them. -/
def scanSettings (shapes : List (String × Shape)) (done : List Setting) :
    List String → Except Stop (List Setting)
  | [] => .ok done
  | "--" :: rest => if rest.isEmpty then .ok done else .error .usage
  | argument :: rest =>
    match longOption? argument with
    | none => if isShort 'h' argument then .error .help else .error .usage
    | some ("help", none) => .error .help
    | some (name, attached) =>
      if done.any (·.name == name) then .error .usage
      else match shapes.lookup name, attached, rest with
        | none, _, _ => .error .usage
        | some .switch, none, rest => scanSettings shapes (done ++ [⟨name, ""⟩]) rest
        | some .switch, some _, _ => .error .usage
        | some shape, some value, rest =>
          if shape.accepts value then scanSettings shapes (done ++ [⟨name, value⟩]) rest
          else .error .usage
        | some _, none, [] => .error .usage
        | some shape, none, value :: rest =>
          if isValue value && shape.accepts value then
            scanSettings shapes (done ++ [⟨name, value⟩]) rest
          else .error .usage

/-- What to compile. -/
structure CompileArguments where
  /-- The base table. -/
  table : String
  /-- The file with the relations. -/
  relations : Option String
  /-- The filter. -/
  filter : Option String
  /-- The file with the filter. -/
  filterFile : Option String
  /-- The name of the dialect. -/
  dialect : String
  /-- See `Options.strict`. -/
  strict : Bool
  /-- See `Options.marker`. -/
  marker : Char
  /-- See `Options.baseKey`. -/
  baseKey : String
  /-- Whether the answer is JSON. -/
  json : Bool

/-- What to do. -/
inductive Command where
  | compile (arguments : CompileArguments)
  /-- List the relations of a file. -/
  | relations (path : String)
  | version
  | help

/-- The options of `compile`. -/
def compileShapes : List (String × Shape) :=
  [("table", .text), ("relations", .text), ("filter", .text), ("filter-file", .text),
    ("dialect", .text),
    ("strict", .switch), ("marker", .char), ("base-key", .text), ("json", .switch)]

/-- The options of `relations`. -/
def relationsShapes : List (String × Shape) := [("relations", .text)]

/-- The value of an option, if it is given. -/
def valueOf? (settings : List Setting) (name : String) : Option String :=
  (settings.find? (·.name == name)).map (·.value)

/-- The command that the options of `compile` make up. A table has to be given, and at most one
filter. -/
def compileCommand? (settings : List Setting) : Option Command :=
  let value := valueOf? settings
  match value "table" with
  | none => none
  | some table =>
    if (value "filter").isSome && (value "filter-file").isSome then none
    else some (.compile
      { table
        relations := value "relations"
        filter := value "filter"
        filterFile := value "filter-file"
        dialect := (value "dialect").getD "postgres"
        strict := (value "strict").isSome
        marker := ((value "marker").bind (·.toList.head?)).getD '$'
        baseKey := (value "base-key").getD "id"
        json := (value "json").isSome })

/-- The command that the options of `relations` make up. A file has to be given. -/
def relationsCommand? (settings : List Setting) : Option Command :=
  (valueOf? settings "relations").map .relations

/-- Reads the options of a command. -/
def withSettings (shapes : List (String × Shape)) (command? : List Setting → Option Command)
    (arguments : List String) : Option Command :=
  match scanSettings shapes [] arguments with
  | .ok settings => command? settings
  | .error .help => some .help
  | .error .usage => none

/-- Reads the command line, if it makes sense. -/
def Command.parse? : List String → Option Command
  | [] => none
  | "--version" :: _ => some .version
  | "--help" :: _ => some .help
  | "compile" :: rest => withSettings compileShapes compileCommand? rest
  | "relations" :: rest => withSettings relationsShapes relationsCommand? rest
  | ["help"] => some .help
  | ["help", topic] => if ["compile", "relations", "help"].contains topic then some .help else none
  | argument :: _ =>
    if isShort 'V' argument then some .version
    else if isShort 'h' argument then some .help
    else none

/-- The files that a command reads. -/
def Command.files : Command → List String
  | .compile arguments => arguments.relations.toList ++ arguments.filterFile.toList
  | .relations path => [path]
  | .version => []
  | .help => []

end DocFilter.CommandLine
