/-
# The standard project

The groups and lookups of the fonts for Sutton SignWriting, used when no project is given.
The middle of the grid of number glyphs is 750, so a context of SW750 and SW750 would leave
its targets where they are.
-/

import SymbolFont.Layout.ProjectFile

namespace SymbolFont.Project

/-- The text of the standard project. -/
def standardText : String :=
"[[group]]
name = \"Markers\"
start = \"SWA\"
end = \"SWR\"

[[group]]
name = \"Numbers\"
start = \"SW250\"
end = \"SW749\"

[[group]]
name = \"g1\"
start = \"S10000\"
end = \"S1a045\"

[[group]]
name = \"g2\"
start = \"S1a046\"
end = \"S2862c\"

[[group]]
name = \"g3\"
start = \"S2862d\"
end = \"S38b07\"

[[group]]
name = \"g4\"
start = \"S10000\"
end = \"S10010\"

[[lookup]]
name = \"p1\"
glyphs = [\"S26b02\"]
context = [\"SW503\", \"SW520\"]

[[lookup]]
name = \"p2\"
glyphs = [\"S20310\"]
context = [\"SW506\", \"SW500\"]

[[lookup]]
name = \"p3\"
glyphs = [\"S33100\"]
context = [\"SW482\", \"SW483\"]
"

/-- The standard project. -/
def standard : Except ProjectError Project := ofText standardText

end SymbolFont.Project
