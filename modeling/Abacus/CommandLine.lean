import Abacus.Directory
import Abacus.Session

/-!
# The command line

The arguments of the program are read as a command. What a command writes and its exit code follow
from its input and the files it can read.

Model of `main` (`Command.ofArgs`, which reads the arguments, and `Command.exec`), `print_usage`
(`Command.usage`), of what `repl`, `eval_expr`, `run_file` and `parse_expr` do with the standard
streams, and of `report` with the texts of `CliError`.

Out of scope: `init_tracing` and all that is logged, arguments that are not UTF-8, and standard
streams that refuse what is written.

Headline: `report_code_eq_zero_iff`, the program succeeds exactly if the session does.
-/

namespace Abacus

/-! ## Commands -/

/-- What the program is asked to do. -/
inductive Command where
  | interactive (config : Interactive)
  | eval (source : String) (showTree : Bool)
  | run (path : String)
  | parse (source : String)
  | help
  | version
  /-- A flag that is not understood. -/
  | unknownFlag (flag : String)
  /-- A command that is not understood. -/
  | unknown (name : String)
  /-- A command without the argument that it needs. -/
  | incomplete (usage : String)
  deriving DecidableEq, Repr

namespace Command

/-- How the interactive command is used. -/
def interactiveUsage : String := "Usage: lispy repl [--ast] [--quiet]\n"

/-- How the evaluating command is used. -/
def evalUsage : String :=
  "Usage: lispy eval <expr> [--ast]\nExample: lispy eval \"(+ 1 (* 2 3))\"\n"

/-- How the command that reads a file is used. -/
def runUsage : String := "Usage: lispy run <file>\n"

/-- How the command that shows a tree is used. -/
def parseUsage : String := "Usage: lispy parse <expr>\n"

/-- How the program is used. -/
def usage : String :=
  "Lispy - S-expression calculator\n\n" ++
    "Usage: lispy [command] [options]\n\n" ++
    "Commands:\n" ++
    "  repl [--ast] [-q]   Interactive loop (default when no command is given)\n" ++
    "  eval <expr> [--ast] Evaluate one expression and print the result\n" ++
    "  run <file>          Evaluate each non-blank line of a file\n" ++
    "  parse <expr>        Print the syntax tree of an expression\n" ++
    "  help                Show this message\n" ++
    "  version             Show the version\n\n" ++
    "Environment:\n" ++
    "  LISPY_LOG           Log filter, e.g. lispy_eval=trace (falls back to RUST_LOG)\n" ++
    "  LISPY_LOG_TREE      Draw log spans as an indented tree\n"

/-- The version of the program. -/
def versionText : String := "lispy 0.0.1\n"

/-- The command that the arguments spell. Arguments that a command has no use for are ignored. -/
def ofArgs : List String → Command
  | [] => interactive .standard
  | name :: args =>
    match name with
    | "repl" =>
      match Interactive.standard.applyFlags args with
      | (config, none) => interactive config
      | (_, some flag) => unknownFlag flag
    | "eval" =>
      match args.find? (· ≠ "--ast") with
      | some source => eval source (args.contains "--ast")
      | none => incomplete evalUsage
    | "run" =>
      match args with
      | path :: _ => run path
      | [] => incomplete runUsage
    | "parse" =>
      match args with
      | source :: _ => parse source
      | [] => incomplete parseUsage
    | "help" | "--help" | "-h" => help
    | "version" | "--version" | "-V" => version
    | name => unknown name

end Command

/-! ## Exits -/

/-- What a program has written when it ends, and its exit code. -/
structure Exit where
  writes : List (Stream × String)
  code : UInt8
  deriving DecidableEq

/-- End after a session: well if its outcome is `true`, and badly otherwise. -/
def report (t : Transcript Bool) : Exit :=
  match t.outcome with
  | .ok true => ⟨t.writes, 0⟩
  | .ok false => ⟨t.writes, 1⟩
  | .error e => ⟨t.writes ++ [(.err, "error: I/O error: " ++ e.message ++ "\n")], 1⟩

/-- End because a file cannot be read. -/
def reportUnreadable (path : String) (e : FileError) : Exit :=
  ⟨[(.err, "error: cannot read '" ++ path ++ "': " ++ e.message ++ "\n")], 1⟩

theorem report_code_eq_zero_iff (t : Transcript Bool) :
    (report t).code = 0 ↔ t.outcome = .ok true := by
  unfold report
  split <;> simp [*]

/-- Everything written to a stream. -/
def Exit.written (x : Exit) (stream : Stream) : String := writtenTo stream x.writes

/-! ## Running commands -/

/-- What a command can get at: the bytes of its input, and the files by their paths. -/
structure World where
  input : List UInt8
  file : String → Except FileError ByteArray

/-- Run a command. -/
def Command.exec (w : World) : Command → Exit
  | interactive config =>
    let t := config.run w.input
    report ⟨t.writes, t.outcome.map fun _ => true⟩
  | eval source showTree => report (respondOnce source showTree)
  | run path =>
    match (w.file path).bind FileError.decode with
    | .ok source => report (runLines source)
    | .error e => reportUnreadable path e
  | parse source => report (writeTree source)
  | help => ⟨[(.out, usage)], 0⟩
  | version => ⟨[(.out, versionText)], 0⟩
  | unknownFlag flag =>
    ⟨[(.err, "error: unknown option '" ++ flag ++ "'\n" ++ interactiveUsage)], 1⟩
  | unknown name => ⟨[(.err, "error: unknown command '" ++ name ++ "'\n\n"), (.out, usage)], 1⟩
  | incomplete text => ⟨[(.err, text)], 1⟩

end Abacus
