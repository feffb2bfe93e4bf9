/-! Searching a text for a word: the first place, counted from the left, decides. -/
namespace HeaderGather.Text

def cut? (word : List Char) : List Char → Option (List Char × List Char)
  | [] => if word = [] then some ([], []) else none
  | c :: rest =>
    match word.isPrefixOf? (c :: rest) with
    | some after => some ([], after)
    | none => (cut? word rest).map fun (before, after) => (c :: before, after)

def endsWith (ending text : List Char) : Bool := ending.isSuffixOf text

end HeaderGather.Text
