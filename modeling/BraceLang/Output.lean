/-!
# Output

What an action writes, on the channel for results and on the channel for errors.
-/

set_option autoImplicit false

namespace BraceLang

/-- Text for the two channels. -/
structure Output where
  out : String := ""
  err : String := ""
  deriving DecidableEq, Repr, Inhabited

namespace Output

/-- A line for results. -/
def line (text : String) : Output :=
  ⟨text ++ "\n", ""⟩

/-- A line for errors. -/
def errorLine (text : String) : Output :=
  ⟨"", text ++ "\n"⟩

/-- One output after another. -/
def append (first second : Output) : Output :=
  ⟨first.out ++ second.out, first.err ++ second.err⟩

instance : Append Output :=
  ⟨append⟩

/-- All outputs of a list, in order. -/
def concat (outputs : List Output) : Output :=
  outputs.foldl append {}

end Output

end BraceLang
