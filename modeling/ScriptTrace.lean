import ScriptTrace.Probe.Prelude
import ScriptTrace.Service.Drawing
import ScriptTrace.Service.Explanation
import ScriptTrace.Service.Tracer
import ScriptTrace.Proofs.BareTrees
import ScriptTrace.Proofs.CallRules
import ScriptTrace.Proofs.ClassRules
import ScriptTrace.Proofs.Correspondence
import ScriptTrace.Proofs.Erasing
import ScriptTrace.Proofs.Erasure
import ScriptTrace.Proofs.Functions
import ScriptTrace.Proofs.Scopes
import ScriptTrace.Proofs.CanonicalText
import ScriptTrace.Proofs.Fingerprints
import ScriptTrace.Proofs.ShownFrames
import ScriptTrace.Proofs.ExpressionReading
import ScriptTrace.Proofs.StackDepths
import ScriptTrace.Proofs.Executions
import ScriptTrace.Proofs.Invocations
import ScriptTrace.Proofs.Coverage
import ScriptTrace.Proofs.Declarations
import ScriptTrace.Proofs.Redeclarations
import ScriptTrace.Proofs.RunReports
import ScriptTrace.Proofs.Generation
import ScriptTrace.Proofs.RunOutcomes
import ScriptTrace.Proofs.Idempotence
import ScriptTrace.Proofs.TestContexts
import ScriptTrace.Proofs.ReportedWrites
import ScriptTrace.Proofs.LoopHeads
import ScriptTrace.Proofs.Prologues
import ScriptTrace.Proofs.LoopScopes
import ScriptTrace.Proofs.StringLiterals
import ScriptTrace.Proofs.AssignedTargets
import ScriptTrace.Proofs.FirstTokens
import ScriptTrace.Proofs.PrintedNesting
import ScriptTrace.Proofs.VariableLayers
import ScriptTrace.Proofs.DrawnTrees
import ScriptTrace.Proofs.SoundSettings
import ScriptTrace.Proofs.ConditionTexts
import ScriptTrace.Proofs.WrittenEvents
