import ResourceLang.Command.FileTree
import ResourceLang.Diagnostic
import ResourceLang.Listing
import ResourceLang.Token.Lexer

/-!
The command that lists the tokens of files. Its options may stand anywhere among the paths. What a
file prints depends on that file alone; files that cannot be read are reported first, and the others
follow in the order of the arguments.
-/

set_option autoImplicit false
set_option relaxedAutoImplicit false

namespace ResourceLang.Command

/-- What the arguments ask for. -/
structure Request where
  positions : Bool
  headers : Bool
  paths : List String
  deriving DecidableEq, Repr

/-- Whether an option is given under either of its names, and the arguments without its first
occurrence. -/
def takeOption (long short : String) (args : List String) : Bool × List String :=
  let named (arg : String) : Bool := arg = long || arg = short
  (args.any named, args.eraseP named)

def Request.ofArgs (args : List String) : Request :=
  let (positions, rest) := takeOption "--positions" "-p" args
  let (headers, paths) := takeOption "--human" "-H" rest
  ⟨positions, headers, paths⟩

/-- What a run prints on its two streams, and whether anything went wrong. -/
structure Outcome where
  stdout : String
  stderr : String
  failed : Bool
  deriving DecidableEq, Repr

namespace Outcome

def silent : Outcome := ⟨"", "", false⟩

/-- One outcome after another, on each stream. -/
def append (first second : Outcome) : Outcome :=
  ⟨first.stdout ++ second.stdout, first.stderr ++ second.stderr, first.failed || second.failed⟩

def concat (outcomes : List Outcome) : Outcome := outcomes.foldl append silent

def exitCode (outcome : Outcome) : Nat := if outcome.failed then 1 else 0

end Outcome

/-- The tokens of a file one to a line, below a header if one is asked for. -/
def tokenLines (request : Request) (path : String) (tokens : List Token) : String :=
  let header := if request.headers then s!"== {path} ({tokens.length} tokens)\n" else ""
  header ++ String.join (tokens.map fun token ↦ token.listing request.positions ++ "\n")

/-- What one file of the map prints. -/
def listFile (request : Request) (map : Sources) (id : SourceId) : Outcome :=
  match map.get? id, Lexer.ofFile? map id with
  | some file, some lexer =>
    match lexer.resume.1 with
    | .ok tokens => ⟨tokenLines request file.path tokens, "", false⟩
    | .error error => ⟨"", (Diagnostic.ofLexError error (some id)).render map ++ "\n", true⟩
  | _, _ => ⟨"", "", true⟩

/-- The files that can be read, by id, and what reading the others reports. -/
def load (read : String → Except FileError String) :
    Sources → List String → Sources × List SourceId × Outcome
  | map, [] => (map, [], .silent)
  | map, path :: paths =>
    match read path with
    | .ok text =>
      let (id, map) := map.insert path text
      let (map, ids, reports) := load read map paths
      (map, id :: ids, reports)
    | .error error =>
      let (map, ids, reports) := load read map paths
      (map, ids, .append ⟨"", s!"{path}: {error.message}\n", true⟩ reports)

/-- Runs over the files of the request. -/
def runFiles (request : Request) (read : String → Except FileError String) : Outcome :=
  let (map, ids, reports) := load read .empty request.paths
  .append reports (.concat (ids.map (listFile request map)))

/-- Runs over standard input, which goes by the name `<stdin>`. -/
def runInput (request : Request) (input : Except FileError String) : Outcome :=
  match input with
  | .error error => ⟨"", s!"Error: {error.message}\n", true⟩
  | .ok text =>
    let (id, map) := Sources.empty.insert "<stdin>" text
    listFile request map id

/-- Standard input is used only where no path is given. -/
def run (request : Request) (read : String → Except FileError String)
    (input : Except FileError String) : Outcome :=
  if request.paths.isEmpty then runInput request input else runFiles request read

end ResourceLang.Command
