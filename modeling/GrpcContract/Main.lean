import GrpcContract.Sample.Cases

/-!
The command line: tries the sample server and prints a report.
-/

open GrpcContract in
def main : IO UInt32 := do
  let report := Sample.report
  report.lines.forM fun line => IO.println line
  if report.passed < report.total then
    IO.eprintln s!"Error: {report.total - report.passed} test(s) failed"
  return report.exitCode.toUInt32
