import WordCalc.Session

/-! # Command line

Print the answer to the command that the program is started with.
-/

def main (arguments : List String) : IO UInt32 := do
  let answer := WordCalc.Session.answer (WordCalc.Session.run (WordCalc.programName :: arguments)).result
  IO.print answer.output
  return answer.exitCode
