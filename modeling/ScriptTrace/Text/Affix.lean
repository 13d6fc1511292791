/-!
# How texts start and end
-/

namespace ScriptTrace

/-- Whether the text starts with `start`. -/
def startsWith (start text : String) : Bool := start.toList.isPrefixOf text.toList

/-- Whether the text ends with `ending`. -/
def endsWith (ending text : String) : Bool := ending.toList.isSuffixOf text.toList

end ScriptTrace
