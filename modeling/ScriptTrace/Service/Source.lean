import ScriptTrace.Probe.Workspace

/-!
# From source text to instrumented text

The parser is a program of its own; what it answers for a text is given.

* `ParserReply` : the answers of the parser;
* `parseProgram` : the tree of a program;
* `instrumentSource` : the text of a program with its probes.
-/

namespace ScriptTrace

/-- What the parser answers. -/
inductive ParserReply where
  | tree (tree : Json)
  | syntaxError (text : String)
  | tooDeep
  | crash (text : String)
  deriving Inhabited

/-- The tree of a program. -/
def parseProgram : ParserReply → Except Refusal Json
  | .tree tree => .ok tree
  | .syntaxError text => .error (.rejected (.syntaxError text))
  | .tooDeep => .error (.rejected .nestedTooDeeply)
  | .crash text => .error (.crashed text)

/-- The instrumented text of a program. -/
def instrumentSource (code : String) (reply : ParserReply) : Except Refusal String := do
  instrumentedText (← parseProgram reply) (some code)

end ScriptTrace
