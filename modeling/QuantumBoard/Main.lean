import QuantumBoard.CommandLine.Run

/-! The program: prints the outcome of its arguments. -/

open QuantumBoard

def main (arguments : List String) : IO UInt32 := do
  let outcome := CommandLine.run (← IO.getEnv "QUIRK_URL") arguments
  (← IO.getStdout).putStr outcome.output
  if let some message := outcome.error then
    (← IO.getStderr).putStrLn message
  if outcome.code = 2 then
    (← IO.getStderr).putStrLn
      "usage: compile --url URL [--format F] [--time T] | cells [--filter S] | version"
  return UInt32.ofNat outcome.code
