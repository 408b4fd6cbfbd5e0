import Superstep.Query

/-!
# The command line

The command line names a graph file and options. A value follows its option behind an equals sign
or as the next argument; in the second form it cannot start with a hyphen, unless it is a hyphen
alone. Every option may be given once. Two hyphens alone end the options.

Arguments are taken from left to right, and the first that decides the matter does: a request for
help, or a fault of usage. That no graph file is named is noticed last.
-/

namespace Superstep.CommandLine

/-- The options with a value. -/
inductive Setting where
  | format
  | niters
  | threshold
  | resetProb
  | binPrefix
  | savePrefix
  | topk
  | sourcesFile
  | numSources
  | workers
deriving DecidableEq

namespace Setting

def name : Setting → String
  | format => "format"
  | niters => "niters"
  | threshold => "threshold"
  | resetProb => "reset-prob"
  | binPrefix => "bin-prefix"
  | savePrefix => "saveprefix"
  | topk => "topk"
  | sourcesFile => "sources-file"
  | numSources => "num-sources"
  | workers => "nworkers"

def all : List Setting :=
  [format, niters, threshold, resetProb, binPrefix, savePrefix, topk, sourcesFile, numSources,
    workers]

/-- The option of a name. -/
def ofName? (name : String) : Option Setting := all.find? fun setting => setting.name == name

end Setting

/-- What is wrong with a command line. -/
inductive UsageFault where
  | unknownOption (text : String)
  | valueMissing (setting : Setting)
  | valueNotTaken (name : String)
  | badValue (setting : Setting) (text : String)
  | givenTwice (name : String)
  | tooManyFiles (text : String)
  | emptyFileName
  | graphMissing
deriving DecidableEq

namespace UsageFault

def message : UsageFault → String
  | unknownOption text => s!"unexpected argument: {text}"
  | valueMissing setting => "a value is required for --" ++ setting.name
  | valueNotTaken name => s!"no value is taken by --{name}"
  | badValue setting text => "invalid value for --" ++ setting.name ++ ": " ++ text
  | givenTwice name => s!"--{name} cannot be used more than once"
  | tooManyFiles text => s!"unexpected argument: {text}"
  | emptyFileName => "a file name cannot be empty"
  | graphMissing => "a graph file is required"

end UsageFault

/-- What a command line asks for. -/
inductive Request where
  | help
  | misuse (fault : UsageFault)
  | query (config : QueryConfig)

/-- What was taken in so far. The file name in `config` is not yet the one of the graph. -/
structure Draft where
  config : QueryConfig := { graph := "" }
  graph : Option String := none
  given : List Setting := []
  noIndexGiven : Bool := false

namespace Draft

/-- The count that a value gives. -/
def count? (text : String) : Option Nat := Text.natBelow? countLimit text.toList

/-- A file name, which has at least one character. -/
def fileName? (text : String) : Option String := if text.isEmpty then none else some text

/-- The query with one option set, or `none` if the value is not one of that option. -/
def assign? (config : QueryConfig) (text : String) : Setting → Option QueryConfig
  | .format => (GraphFormat.ofText? text).map fun format => { config with format }
  | .niters => (count? text).map fun niters => { config with niters }
  | .threshold => (Binary64.ofText? text).map fun threshold => { config with threshold }
  | .resetProb => (Binary64.ofText? text).map fun resetProb => { config with resetProb }
  | .binPrefix => (fileName? text).map fun file => { config with binPrefix := some file }
  | .savePrefix => (fileName? text).map fun file => { config with savePrefix := some file }
  | .topk => (count? text).map fun topk => { config with topk }
  | .sourcesFile => (fileName? text).map fun file => { config with sourcesFile := some file }
  | .numSources => (count? text).map fun numSources => { config with numSources }
  | .workers => (count? text).map fun workers => { config with workers := max workers 1 }

/-- Takes in an option and its value. -/
def set (d : Draft) (setting : Setting) (text : String) : Except UsageFault Draft :=
  if d.given.contains setting then .error (.givenTwice setting.name)
  else match assign? d.config text setting with
    | some config => .ok { d with config, given := setting :: d.given }
    | none => .error (.badValue setting text)

/-- Takes in the option without a value. -/
def setNoIndex (d : Draft) : Except UsageFault Draft :=
  if d.noIndexGiven then .error (.givenTwice "no-index")
  else .ok { d with config := { d.config with noIndex := true }, noIndexGiven := true }

/-- Takes in a file name. -/
def setGraph (d : Draft) (text : String) : Except UsageFault Draft :=
  if d.graph.isSome then .error (.tooManyFiles text)
  else if text.isEmpty then .error .emptyFileName
  else .ok { d with graph := some text }

/-- What a command line without further arguments asks for. -/
def request (d : Draft) : Request :=
  match d.graph with
  | some graph => .query { d.config with graph }
  | none => .misuse .graphMissing

end Draft

/-- The name and the value of a long option. -/
def splitValue (name : List Char) : String × Option String :=
  (String.ofList (name.takeWhile (· != '=')),
    match name.dropWhile (· != '=') with
    | [] => none
    | _ :: value => some (String.ofList value))

/-- Whether an argument can be the value of the option before it. -/
def isPlain (text : String) : Bool :=
  match text.toList with
  | '-' :: _ :: _ => false
  | _ => true

/-- Goes on with a draft, unless a fault of usage ends the matter. -/
def continueWith (step : Except UsageFault Draft) (go : Draft → Request) : Request :=
  match step with
  | .ok draft => go draft
  | .error fault => .misuse fault

/-- Takes in arguments behind two hyphens, which are file names. -/
def readFileNames (d : Draft) : List String → Request
  | [] => d.request
  | text :: rest => continueWith (d.setGraph text) fun d => readFileNames d rest

/-- Takes in arguments. -/
def readFrom (d : Draft) : List String → Request
  | [] => d.request
  | text :: rest =>
    match text.toList with
    | ['-', '-'] => readFileNames d rest
    | '-' :: '-' :: option =>
      match splitValue option with
      | ("help", none) => .help
      | ("help", some _) => .misuse (.valueNotTaken "help")
      | ("no-index", none) => continueWith d.setNoIndex fun d => readFrom d rest
      | ("no-index", some _) => .misuse (.valueNotTaken "no-index")
      | (name, value) =>
        match Setting.ofName? name, value, rest with
        | none, _, _ => .misuse (.unknownOption text)
        | some setting, some value, rest =>
          continueWith (d.set setting value) fun d => readFrom d rest
        | some setting, none, value :: rest =>
          if isPlain value then continueWith (d.set setting value) fun d => readFrom d rest
          else .misuse (.valueMissing setting)
        | some setting, none, [] => .misuse (.valueMissing setting)
    | '-' :: 'h' :: _ => .help
    | '-' :: _ :: _ => .misuse (.unknownOption text)
    | _ => continueWith (d.setGraph text) fun d => readFrom d rest

/-- What the arguments ask for. -/
def read (arguments : List String) : Request := readFrom {} arguments

/-- The exit code of a query that was run. A fault has one of its own. -/
def exitCode {α : Type} : Except Failure α → UInt32
  | .ok _ => 0
  | .error (.error _) => 1
  | .error (.fault _) => 101

/-- The exit code of a command line that asks for nothing that can be done. -/
def misuseCode : UInt32 := 2

/-- What help shows. -/
def usage : String :=
  "Multi-source personalized PageRank\n\n" ++
  "Usage: superstep [OPTIONS] <GRAPH>\n\n" ++
  "  <GRAPH>                edge list, or a snapshot written with --bin-prefix\n\n" ++
  "  --format <FORMAT>      snap or snapshot [default: snap]\n" ++
  "  --niters <N>           number of propagation rounds [default: 10]\n" ++
  "  --threshold <W>        flow at or below this weight is dropped [default: 0.0001]\n" ++
  "  --reset-prob <P>       probability of restarting at the source [default: 0.15]\n" ++
  "  --bin-prefix <FILE>    save the graph with its index here\n" ++
  "  --saveprefix <FILE>    save the top entries of each vertex here\n" ++
  "  --topk <K>             entries per vertex in the saved results [default: 100]\n" ++
  "  --sources-file <FILE>  file with the source count followed by source ids\n" ++
  "  --num-sources <N>      read at most this many sources [default: 1000]\n" ++
  "  --no-index             compute without a preprocessed index\n" ++
  "  --nworkers <N>         number of workers\n" ++
  "  -h, --help             print help\n"

end Superstep.CommandLine
