import MarkupTidy.Command.Passes
import MarkupTidy.Command.Process

/-! # The command line

A command line names a command and its arguments, or asks for the version. -/

namespace MarkupTidy.Command

/-- What a command line asks for before it names a command. -/
inductive Wish where
  | version
  | help

/-- The options before the name of a command. -/
def Wish.specs : List (OptionSpec Wish) :=
  [⟨"--version", .plain .version⟩, ⟨"--help", .plain .help⟩]

/-- The outcome of a wish. -/
def Wish.outcome (tree : FileTree) : Wish → Outcome
  | version => .printed tree 0 ["figfix, version 0.3.0"]
  | help => .printed tree 0 ["Usage: figfix [OPTIONS] COMMAND [ARGS]..."]

/-- The outcome of operands that begin with the given name of no command.  Where two hyphens have
kept options from being read, they are read after all. -/
def withoutCommand (tree : FileTree) (name : String) (operands : List String) : Outcome :=
  match readArguments Wish.specs false operands with
  | .error fault => .misused tree fault
  | .ok ⟨wish :: _, _⟩ => wish.outcome tree
  | .ok ⟨[], _⟩ => .misused tree (.unknownCommand name)

/-- Carries out a command line on files. -/
def run (tree : FileTree) (arguments : List String) : Outcome :=
  match readArguments Wish.specs false arguments with
  | .error fault => .misused tree fault
  | .ok ⟨wish :: _, _⟩ => wish.outcome tree
  | .ok ⟨[], operands⟩ =>
    match operands with
    | [] => .misused tree .commandMissing
    | "process" :: rest => process tree rest
    | "passes" :: rest => passes tree rest
    | name :: _ => withoutCommand tree name operands

end MarkupTidy.Command
