import ScriptTrace.Number.Reading
import ScriptTrace.Text.Quoted
import ScriptTrace.Json.Basic

/-!
# The probe runtime

The source text of the functions that instrumented programs call. They buffer the recorded events; once
the buffer is full, every further record marks the run as exceeded and throws.

* `Prelude.source` : the source text, for a number of events;
* `Prelude.budget` : the number of events that a value stands for;
* `Prelude.eventsExpression`, `Prelude.exceededExpression` : how the buffer and the mark are read back.
-/

namespace ScriptTrace

namespace Prelude

/-- The expression that gives the text of the buffer. -/
def eventsExpression : String := "JSON.stringify(__probe.events)"

/-- The expression that tells whether the budget was exceeded. -/
def exceededExpression : String := "__probe.exceeded"

/-- What the runtime throws when the budget is exceeded. -/
def budgetMessage : String := "__probe step budget exhausted"

/-- The names of the runtime, and its state. -/
def declarations : List String := [
  "var __probe, __record, __snapshot, __return, __test, __print, console;",
  "(function (maxEvents, budgetMessage) \x7b",
  "  var MAX_DEPTH = 32;",
  "  __probe = \x7b\"events\": [], \"exceeded\": false\x7d;"]

/-- A copy of a value that can be written as JSON. -/
def copySource : List String := [
  "  function copy(value, seen, depth) \x7b",
  "    if (value === undefined) return \x7b\"$type\": \"undefined\"\x7d;",
  "    if (value === null) return null;",
  "    var kind = typeof value;",
  "    if (kind === \"number\") \x7b",
  "      if (value !== value) return \x7b\"$type\": \"number\", \"value\": \"NaN\"\x7d;",
  "      if (value === Infinity) return \x7b\"$type\": \"number\", \"value\": \"Infinity\"\x7d;",
  "      if (value === -Infinity) return \x7b\"$type\": \"number\", \"value\": \"-Infinity\"\x7d;",
  "      return value;",
  "    \x7d",
  "    if (kind === \"string\" || kind === \"boolean\") return value;",
  "    if (kind === \"bigint\" || kind === \"symbol\") return \x7b\"$type\": kind, \"value\": String(value)\x7d;",
  "    if (kind === \"function\") return \x7b\"$type\": \"function\", \"name\": value.name || \"anonymous\"\x7d;",
  "    if (seen.indexOf(value) !== -1) return \x7b\"$type\": \"circular\"\x7d;",
  "    if (depth >= MAX_DEPTH) return \x7b\"$type\": \"truncated\"\x7d;",
  "    if (value instanceof Date) return isNaN(value.getTime()) ? \"Invalid Date\" : value.toISOString();",
  "    seen.push(value);",
  "    var out, i, keys;",
  "    if (Array.isArray(value)) \x7b",
  "      out = [];",
  "      for (i = 0; i < value.length; i++) out.push(copy(value[i], seen, depth + 1));",
  "    \x7d else if (value instanceof Map) \x7b",
  "      out = \x7b\"$type\": \"map\", \"entries\": []\x7d;",
  "      value.forEach(function (v, k) \x7b",
  "        out.entries.push([copy(k, seen, depth + 1), copy(v, seen, depth + 1)]);",
  "      \x7d);",
  "    \x7d else if (value instanceof Set) \x7b",
  "      out = \x7b\"$type\": \"set\", \"entries\": []\x7d;",
  "      value.forEach(function (v) \x7b out.entries.push(copy(v, seen, depth + 1)); \x7d);",
  "    \x7d else \x7b",
  "      out = \x7b\x7d;",
  "      keys = Object.keys(value);",
  "      for (i = 0; i < keys.length; i++) \x7b",
  "        try \x7b",
  "          out[keys[i]] = copy(value[keys[i]], seen, depth + 1);",
  "        \x7d catch (e) \x7b",
  "          out[keys[i]] = \x7b\"$type\": \"error\", \"value\": String(e)\x7d;",
  "        \x7d",
  "      \x7d",
  "    \x7d",
  "    seen.pop();",
  "    return out;",
  "  \x7d"]

/-- The text in which a value is printed. -/
def displaySource : List String := [
  "  function display(value) \x7b",
  "    var kind = typeof value;",
  "    if (kind === \"string\") return value;",
  "    if (kind === \"function\") return \"[Function: \" + (value.name || \"anonymous\") + \"]\";",
  "    if (value === null || kind !== \"object\") return String(value);",
  "    try \x7b",
  "      return JSON.stringify(copy(value, [], 0));",
  "    \x7d catch (e) \x7b",
  "      return String(value);",
  "    \x7d",
  "  \x7d"]

/-- Records and snapshots. -/
def recordSource : List String := [
  "  __snapshot = function (value) \x7b",
  "    return copy(value, [], 0);",
  "  \x7d;",
  "",
  "  __record = function (event) \x7b",
  "    if (__probe.events.length >= maxEvents) \x7b",
  "      __probe.exceeded = true;",
  "      throw new RangeError(budgetMessage);",
  "    \x7d",
  "    __probe.events.push(event);",
  "  \x7d;"]

/-- Wrappers around user expressions. -/
def wrapperSource : List String := [
  "  __return = function (line, value) \x7b",
  "    __record(\x7b\"kind\": \"return\", \"line\": line, \"value\": copy(value, [], 0)\x7d);",
  "    return value;",
  "  \x7d;",
  "",
  "  __test = function (expression, line, value) \x7b",
  "    __record(\x7b\"kind\": \"test\", \"line\": line, \"expression\": expression, \"result\": !!value\x7d);",
  "    return value;",
  "  \x7d;",
  "",
  "  __print = function (line, args) \x7b",
  "    var parts = [];",
  "    for (var i = 0; i < args.length; i++) parts.push(display(args[i]));",
  "    __record(\x7b\"kind\": \"stdout\", \"line\": line, \"output\": parts.join(\" \")\x7d);",
  "  \x7d;"]

/-- A console that prints through the runtime. -/
def consoleSource : List String := [
  "  function printer() \x7b",
  "    return function () \x7b __print(-1, Array.prototype.slice.call(arguments)); \x7d;",
  "  \x7d",
  "",
  "  console = \x7blog: printer(), info: printer(), warn: printer(), error: printer(), debug: printer()\x7d;"]

/-- The call that installs the runtime. -/
def installation (maxEvents : Int) : String :=
  "\x7d)(" ++ toString maxEvents ++ ", " ++ quoteAscii budgetMessage ++ ");"

/-- The parts of the runtime, with an empty line between them. -/
def parts : List (List String) :=
  [declarations, copySource, displaySource, recordSource, wrapperSource, consoleSource]

/-- The source of the runtime for a buffer of `maxEvents` events. -/
def source (maxEvents : Int) : String :=
  "\n" ++ "\n".intercalate ([""].intercalate parts ++ [installation maxEvents, ""])

/-- The number of events that is recorded unless told otherwise. -/
def defaultBudget : Int := 10000

/-- Why a value stands for no number of events. -/
inductive BudgetFault where
  /-- A number or a text that spells no integer. -/
  | unreadable
  /-- A value that is no number at all. -/
  | noNumber
  deriving DecidableEq, Repr

/-- The number of events that a value stands for: the integer part of a number, one or zero for a truth
value, or the integer that a text spells. -/
def budget : Json → Except BudgetFault Int
  | .null => .ok defaultBudget
  | .int n => .ok n
  | .bool b => .ok (if b then 1 else 0)
  | .float x => x.truncate?.elim (.error .unreadable) .ok
  | .str s => (readInteger s).elim (.error .unreadable) .ok
  | _ => .error .noNumber

end Prelude

end ScriptTrace
