/-!
# Command-line arguments

The arguments are read from left to right. Up to a lone `--`, an argument that starts with a dash and
has more after it holds flags; all others are the source and the destination, in this order. A
request for help or the version ends the reading at once, and so does a misuse.
-/

namespace Breadboard

/-- A request to assemble a file. -/
structure Job where
  source : String
  /-- Where the image goes, if not beside the source. -/
  dest? : Option String := none
  /-- Whether to print a listing. -/
  listing : Bool := false
  deriving DecidableEq, Repr

/-- What the arguments ask for. -/
inductive Request where
  | help
  | version
  /-- The arguments cannot be used. -/
  | misuse
  | assemble (job : Job)
  deriving DecidableEq, Repr

/-- A flag of the command line. -/
inductive Flag where
  | listing
  | help
  | version
  deriving DecidableEq, Repr

namespace Flag

/-- The flag of a name after two dashes. -/
def ofLong? (name : String) : Option Flag :=
  if name = "dump" then some listing
  else if name = "help" then some help
  else if name = "version" then some version
  else none

/-- The flag of a letter after one dash. -/
def ofShort? (letter : Char) : Option Flag :=
  if letter = 'd' then some listing
  else if letter = 'h' then some help
  else if letter = 'V' then some version
  else none

end Flag

/-- The arguments read so far. -/
structure Draft where
  paths : List String := []
  listing : Bool := false
  deriving DecidableEq, Repr

namespace Draft

/-- Takes a flag in; an early end of the reading is the request itself. -/
def addFlag (draft : Draft) : Option Flag → Except Request Draft
  | some .help => .error .help
  | some .version => .error .version
  | some .listing => if draft.listing then .error .misuse else .ok { draft with listing := true }
  | none => .error .misuse

/-- Takes a path in: at most two of them, none empty. -/
def addPath (draft : Draft) (path : String) : Except Request Draft :=
  if path = "" ∨ draft.paths.length = 2 then .error .misuse
  else .ok { draft with paths := draft.paths ++ [path] }

/-- Takes an argument in. -/
def addArgument (draft : Draft) (arg : String) : Except Request Draft :=
  match arg.toList with
  | '-' :: '-' :: name => draft.addFlag (Flag.ofLong? (String.ofList name))
  | '-' :: letter :: letters =>
    (letter :: letters).foldlM (fun draft c => draft.addFlag (Flag.ofShort? c)) draft
  | _ => draft.addPath arg

/-- Takes all arguments in; those after a lone `--` are paths. -/
def addArguments (draft : Draft) : List String → Except Request Draft
  | [] => .ok draft
  | arg :: rest =>
    if arg = "--" then rest.foldlM addPath draft
    else
      match draft.addArgument arg with
      | .ok draft => draft.addArguments rest
      | .error request => .error request

/-- The request of all arguments: there must be a source. -/
def request (draft : Draft) : Request :=
  match draft.paths with
  | [] => .misuse
  | source :: dest => .assemble ⟨source, dest.head?, draft.listing⟩

end Draft

/-- The request of a list of arguments. -/
def Request.ofArguments (args : List String) : Request :=
  match Draft.addArguments {} args with
  | .ok draft => draft.request
  | .error request => request

end Breadboard
