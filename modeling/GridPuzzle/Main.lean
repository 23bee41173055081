import GridPuzzle.Sample

/-!
The command line: it prints the rules of the sample puzzle.
-/
open GridPuzzle

def main : IO UInt32 :=
  match Sample.program with
  | .ok program => do
    IO.print program.text
    pure 0
  | .error error => do
    IO.eprintln error.message
    pure 1
