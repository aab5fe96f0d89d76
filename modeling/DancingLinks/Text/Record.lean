/-! Values written as a name and, in braces, labelled fields. -/
namespace DancingLinks.Text

def labelled (label value : String) : String := label ++ ": " ++ value

def record (name : String) (fields : List String) : String :=
  name ++ " \x7b " ++ ", ".intercalate fields ++ " \x7d"

def openRecord (name : String) (fields : List String) : String := record name (fields ++ [".."])

end DancingLinks.Text
