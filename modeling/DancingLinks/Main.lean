import DancingLinks.Queens.CommandLine
/-! The queens program. The columns of the solutions are printed if the environment holds
`QUEENS_NAMES`. -/

def main (arguments : List String) : IO UInt32 := do
  let names ← IO.getEnv "QUEENS_NAMES"
  match DancingLinks.Queens.CommandLine.run arguments names.isSome with
  | .error _ =>
    IO.eprintln "the search has met a fault"
    return 101
  | .ok transcript =>
    (← IO.getStdout).write ⟨transcript.stdout.toArray⟩
    IO.eprint transcript.stderr
    return transcript.code.toUInt32
