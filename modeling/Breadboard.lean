import Breadboard.Circuit.Notation
import Breadboard.Proofs.Circuit.LedRetention
import Breadboard.Proofs.Script.BlockConversion
import Breadboard.Proofs.Script.SuitePlacement
import Breadboard.Proofs.Simulation.StatementStream
import Breadboard.Settings.Reading
import Breadboard.Simulation.Bench
import Breadboard.Sketch.Template
import Breadboard.Proofs.Binary64.Whole
import Breadboard.Proofs.Script.CountedName
import Breadboard.Proofs.Script.SketchDetection
import Breadboard.Proofs.Script.TemplateContext
import Breadboard.Proofs.Circuit.MeaningfulWires
import Breadboard.Proofs.Script.BlockCode
import Breadboard.Proofs.Script.LoopSplit
import Breadboard.Proofs.Script.LoopStatements
import Breadboard.Proofs.Script.PinAgreement
import Breadboard.Proofs.Script.TemplateLine
import Breadboard.Proofs.Script.TemplateLoop
import Breadboard.Proofs.Script.TemplateScript
import Breadboard.Proofs.Simulation.WaitLength
import Breadboard.Proofs.Sketch.Relexing
import Breadboard.Proofs.Sketch.ByteLexer
import Breadboard.Proofs.Script.PinObjects
import Breadboard.Proofs.Script.PinAccess
import Breadboard.Proofs.Script.DelayWait
import Breadboard.Proofs.Sketch.CommentGap
import Breadboard.Proofs.Sketch.Uncommented
import Breadboard.Proofs.Script.BodyLines
import Breadboard.Proofs.Script.KeptLines
import Breadboard.Proofs.Simulation.BenchSession
import Breadboard.Proofs.Simulation.LivePath
import Breadboard.Proofs.Simulation.HostCall
import Breadboard.Proofs.Simulation.PinReports
import Breadboard.Proofs.Simulation.LastObserver
import Breadboard.Proofs.Simulation.SingleReport
import Breadboard.Proofs.Circuit.LinkSummary
import Breadboard.Proofs.Simulation.UndisturbedRun
import Breadboard.Proofs.Simulation.RunRecord
import Breadboard.Proofs.Simulation.SessionEvents
import Breadboard.Proofs.Simulation.InterpreterLog
import Breadboard.Proofs.Sketch.LiteralCode
import Breadboard.Proofs.Script.KeptLiterals
import Breadboard.Proofs.Script.CommentLine
import Breadboard.Proofs.Script.ConditionText
import Breadboard.Proofs.Script.PassThrough
import Breadboard.Proofs.Simulation.PinHistory
import Breadboard.Proofs.Simulation.LoopPresence
import Breadboard.Proofs.Circuit.Reloading
import Breadboard.Proofs.Script.LogicalLines
import Breadboard.Proofs.Script.StatementPartition
import Breadboard.Proofs.Script.ConditionalChain
import Breadboard.Proofs.Script.SignedLiteral
import Breadboard.Proofs.Script.ConstantDefinition
import Breadboard.Proofs.Script.ConstantValue
import Breadboard.Proofs.Script.ParenGroup
import Breadboard.Proofs.Script.CallArgument
import Breadboard.Proofs.Script.FreeCall
import Breadboard.Proofs.Script.PinBindings
import Breadboard.Proofs.Script.UsableName
import Breadboard.Proofs.Script.CallForm
import Breadboard.Proofs.Script.CallSplice
import Breadboard.Proofs.Script.CallPass
import Breadboard.Proofs.Script.TrimmedTokens
import Breadboard.Proofs.Script.CallRule
import Breadboard.Proofs.Script.ClearedLine
import Breadboard.Proofs.Script.Respelling
import Breadboard.Proofs.Script.LooseTokens
import Breadboard.Proofs.Script.WordRespelling
import Breadboard.Proofs.Script.QuietLine
import Breadboard.Proofs.Script.ConvertedCalls
import Breadboard.Proofs.Script.PinCollision
import Breadboard.Proofs.Script.BodySearch
import Breadboard.Proofs.Script.LineEnding
import Breadboard.Proofs.Circuit.PortName
import Breadboard.Proofs.Simulation.ProgramLoading
import Breadboard.Proofs.Simulation.AtRest
import Breadboard.Proofs.Sketch.ClosingBracket
import Breadboard.Proofs.Script.CommaSplit
import Breadboard.Proofs.Script.ConstantTable
import Breadboard.Proofs.Script.PureWait
import Breadboard.Proofs.Simulation.WaitStep
