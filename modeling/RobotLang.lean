import RobotLang.Main
import RobotLang.Model.Inspect
import RobotLang.Session
import RobotLang.Proofs.FirstFailure
import RobotLang.Proofs.NameLookup
import RobotLang.Proofs.Occurrence
import RobotLang.Proofs.Changes
import RobotLang.Proofs.Growth
import RobotLang.Proofs.Reachable
import RobotLang.Proofs.BindingRule
import RobotLang.Proofs.TypeRule
import RobotLang.Proofs.Bindings
import RobotLang.Proofs.Layout
import RobotLang.Proofs.Parsing
import RobotLang.Proofs.Reading
import RobotLang.Proofs.Recovery
import RobotLang.Proofs.Scans
import RobotLang.Proofs.Answers
import RobotLang.Proofs.Unplaced
import RobotLang.Proofs.Numerals
import RobotLang.Proofs.Quoting
import RobotLang.Proofs.Printing
import RobotLang.Proofs.Contents
import RobotLang.Proofs.ReadModels
import RobotLang.Proofs.Passing
import RobotLang.Proofs.RoundTrip
import RobotLang.Proofs.StringsRead
import RobotLang.Proofs.QuotedRoundTrip
import RobotLang.Proofs.Collisions
import RobotLang.Proofs.Registry
import RobotLang.Proofs.StageOrder
import RobotLang.Proofs.Programs
import RobotLang.Proofs.Paths
import RobotLang.Proofs.Includes
import RobotLang.Proofs.RepeatedIncludes
import RobotLang.Proofs.Stores
import RobotLang.Proofs.Retry
import RobotLang.Proofs.TypeRetry
import RobotLang.Proofs.Regrouping
import RobotLang.Proofs.Landmarks
import RobotLang.Proofs.Places
import RobotLang.Proofs.TokensRead
import RobotLang.Proofs.RosPhrases
import RobotLang.Proofs.UnresolvedTexts
import RobotLang.Proofs.CommandWords
import RobotLang.Proofs.Commands
import RobotLang.Proofs.SkillsetTexts
import RobotLang.Proofs.SkillsetRoundTrip
import RobotLang.Proofs.LogLevels
