import MigrationPlatform.Controller.Account
import MigrationPlatform.Controller.Backoff
import MigrationPlatform.Controller.Causes
import MigrationPlatform.Controller.Delivery
import MigrationPlatform.Controller.Frame
import MigrationPlatform.Controller.Once
import MigrationPlatform.Controller.Outcome
import MigrationPlatform.Controller.Pending
import MigrationPlatform.Controller.Truthful
import MigrationPlatform.Analyzer.ActionNames
import MigrationPlatform.Analyzer.Agree
import MigrationPlatform.Analyzer.Checklist
import MigrationPlatform.Analyzer.Cli
import MigrationPlatform.Analyzer.Concat
import MigrationPlatform.Analyzer.Contents
import MigrationPlatform.Analyzer.LocalDefs
import MigrationPlatform.Analyzer.Origin
import MigrationPlatform.Analyzer.SecretNames
import MigrationPlatform.Analyzer.StepCalls
import MigrationPlatform.Hack.CrdEnvelope
import MigrationPlatform.Hack.CrdFiles
import MigrationPlatform.Hack.CrdSchemas
import MigrationPlatform.Hack.FieldPaths
import MigrationPlatform.Hack.FormatRules
import MigrationPlatform.Hack.LivePatches
import MigrationPlatform.Hack.PathSyntax
import MigrationPlatform.Hack.Skeletons
import MigrationPlatform.Infra.Admission
import MigrationPlatform.Infra.SameTrust
import MigrationPlatform.Pipelines.Argo
import MigrationPlatform.Pipelines.Concurrency
import MigrationPlatform.Pipelines.Payload
import MigrationPlatform.Pipelines.Tekton
