/-!
# The shape of the command line

The program takes flags and a command; each command takes flags and a fixed list of arguments.
This module holds their names and their help.
-/

namespace Arbor.Cli

/-- What a flag asks for. -/
inductive Flag
  | help
  | verbose
  deriving DecidableEq, Repr

def Flag.display : Flag → String
  | .help => "-h/--help"
  | .verbose => "-v/--verbose"

/-- A part of the command line with flags and arguments of its own: how the program is called up
to this part, its usage and help, the spellings of its flags, and the names of its arguments. -/
structure Form where
  program : String
  usage : String
  help : String
  spellings : List (String × Flag)
  arguments : List String

inductive CommandName
  | edges
  | validate
  | svg
  deriving DecidableEq, Repr

def CommandName.text : CommandName → String
  | .edges => "edges"
  | .validate => "validate"
  | .svg => "svg"

def commandNames : List CommandName := [.edges, .validate, .svg]

def CommandName.ofText? (s : String) : Option CommandName :=
  commandNames.find? fun name => name.text == s

/-- The spellings of the flag that every part has. -/
def helpSpellings : List (String × Flag) := [("-h", .help), ("--help", .help)]

/-- The description of the input, which ends the help. -/
def inputHelp : String :=
"
INPUT JSON SYNTAX

  name: string (optional)
      Title written into the SVG <title>.

  species: string (default \"honda\")
      Premade species to grow.

  iterations: integer >= 0 (default 0)
      Number of rewriting generations. 0 interprets the axiom as is.

  params: object (optional)
      Species parameters; omitted names keep their defaults. For \"honda\":
        internode_scale_factor_1 (0.60)   internode_scale_factor_2 (0.85)
        branch_yaw_1 (25)                 branch_yaw_2 (-15)
        branch_pitch_1 (180)              branch_pitch_2 (180)
        branch_differential_diameter_factor (0.45)
        branch_diameter_conservation_factor (0.50)
        root_diameter (10)                root_length (100)

  root: object (optional)
      root.position: [x, y, z] (default [0, 0, 0])
      root.diameter: number (default params.root_diameter)

  svg: object (optional, used by the svg command)
      margin (10), precision 0..10 (3), flip_y (true), width, height,
      background, style.stroke (\"#000\"), style.width_scale (1),
      style.min_width (0.1), style.stroke_linecap (\"round\")

The svg command projects the tree onto the XY plane; stroke widths follow
node diameters.
"

def programUsage : String := "usage: lsystree [-h] [-v] \x7bedges,validate,svg\x7d ...\n"

/-- The program as a whole; its one argument is the command. -/
def programForm : Form where
  program := "lsystree"
  usage := programUsage
  help := programUsage ++ "
Grow a 3D branching tree from a context-sensitive L-system.

positional arguments:
  \x7bedges,validate,svg\x7d
    edges               Print every edge of the grown tree.
    validate            Validate a JSON config and print a brief summary.
    svg                 Write an XY projection of the tree as SVG.

options:
  -h, --help            show this help message and exit
  -v, --verbose         Log each rewriting generation.
" ++ inputHelp
  spellings := helpSpellings ++ [("-v", .verbose), ("--verbose", .verbose)]
  arguments := ["cmd"]

/-- A command that takes the given arguments, each with its help. -/
def commandForm (name : CommandName) (arguments : List (String × String)) : Form :=
  let names := arguments.map (·.1)
  let usage := "usage: lsystree " ++ name.text ++ " [-h] " ++ " ".intercalate names ++ "\n"
  let lines := arguments.map fun (argument, help) =>
    "  " ++ argument ++ String.ofList (List.replicate (12 - argument.length) ' ') ++ help ++ "\n"
  { program := "lsystree " ++ name.text
    usage := usage
    help := usage ++ "\npositional arguments:\n" ++ String.join lines ++
      "\noptions:\n  -h, --help  show this help message and exit\n"
    spellings := helpSpellings
    arguments := names }

def configArgument : String × String := ("config", "Path to the input JSON config.")

def CommandName.form : CommandName → Form
  | .edges => commandForm .edges [configArgument]
  | .validate => commandForm .validate [configArgument]
  | .svg => commandForm .svg [configArgument, ("output", "Path to write the SVG output.")]

end Arbor.Cli
