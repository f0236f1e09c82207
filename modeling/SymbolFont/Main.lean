/-
# The program

The first argument names the tool, the others are the tool's.  Everything is decided by the
library; what is left here is to read the files that a task names, to write the one that it
delivers, and to print.
-/

import SymbolFont.CommandLine.Tool

namespace SymbolFont.CommandLine

/-- The fault behind an error of the system. -/
def faultOf : IO.Error → FileFault
  | .noFileOrDirectory _ _ _ => .notFound
  | .inappropriateType _ code _ => if code = 20 then .notDirectory else .isDirectory
  | .invalidArgument _ 36 _ => .nameTooLong
  | error => .other (toString error)

/-- The content of a file, or why it could not be read. -/
def readFault (path : String) : IO (Except FileFault ByteArray) := do
  try
    return .ok (← IO.FS.readBinFile path)
  catch error =>
    return .error (faultOf error)

/-- Read the files that a task may read. -/
def readInputs (paths : List String) : IO ReadFile := do
  let contents ← paths.mapM fun path => return (path, ← readFault path)
  return fun path => (contents.lookup path).getD (.error .notFound)

/-- Write a file, or tell why it could not be written. -/
def writeFault (path text : String) : IO (Except FileFault Unit) := do
  try
    IO.FS.writeBinFile path text.toUTF8
    return .ok ()
  catch error =>
    return .error (faultOf error)

/-- Carry out a task on the files of the system. -/
def carryOut (task : Task) : IO Report := do
  match task.product (← readInputs task.inputs) with
  | .error failure => return .ofFailure failure
  | .ok ⟨none, text⟩ => return { stdout := text }
  | .ok ⟨some path, text⟩ =>
      match ← writeFault path text with
      | .ok () => return {}
      | .error fault => return .ofFailure (task.outputFailure fault)

end SymbolFont.CommandLine

open SymbolFont.CommandLine

/-- Run the tool that the first argument names. -/
def main : List String → IO UInt32
  | [] => do
      (← IO.getStderr).putStr "error: no tool given\n"
      return 2
  | name :: arguments => do
      match Tool.ofName? name with
      | none =>
          (← IO.getStderr).putStr ("error: no such tool: " ++ name ++ "\n")
          return 2
      | some tool =>
          let report ← match tool.order arguments with
            | .report report => pure report
            | .task task => carryOut task
          (← IO.getStdout).putStr report.stdout
          (← IO.getStderr).putStr report.stderr
          return report.status
