import MediaCatalog.Disk.Tree

/-!
The files at and below a path, each by the path that leads to it. What is to be
skipped is skipped with everything below it.
-/

namespace MediaCatalog

namespace Entry

variable (skip : Path → Bool)

mutual

def filesAt (path : Path) : Entry → List Path
  | .file _ _ => if skip path then [] else [path]
  | .directory _ entries => if skip path then [] else filesIn path entries

def filesIn (path : Path) : List Entry → List Path
  | [] => []
  | entry :: rest => filesAt (path.join ⟨entry.name⟩) entry ++ filesIn path rest

end

end Entry

/-- The files at and below what there is at a path. -/
def Node.files (skip : Path → Bool) (path : Path) : Node → List Path
  | .file _ => if skip path then [] else [path]
  | .directory entries => if skip path then [] else Entry.filesIn skip path entries

end MediaCatalog
